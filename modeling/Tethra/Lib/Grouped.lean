import Mathlib

set_option autoImplicit false

/-! # Grouped sums

Rows of a key and a value, as a table of sums holds them. `total rows k` adds up what the rows say of
`k`; `groupSum` is the table with one row for each key, and it has the same totals. -/

namespace Grouped

variable {κ M : Type} [DecidableEq κ] [AddCommMonoid M]

/-- What the rows under the key `k` add up to. -/
def total (rows : List (κ × M)) (k : κ) : M := ((rows.filter (·.1 = k)).map Prod.snd).sum

/-- One row for each key (`GROUP BY`). -/
def groupSum (rows : List (κ × M)) : List (κ × M) :=
  (rows.map Prod.fst).dedup.map fun k => (k, total rows k)

theorem total_cons (r : κ × M) (rows : List (κ × M)) (k : κ) :
    total (r :: rows) k = (if r.1 = k then r.2 else 0) + total rows k := by
  unfold total
  rw [List.filter_cons]
  by_cases h : r.1 = k
  · simp [h]
  · simp [h]

theorem total_append (a b : List (κ × M)) (k : κ) : total (a ++ b) k = total a k + total b k := by
  simp [total, List.filter_append]

/-- A key without rows has the total zero. -/
theorem total_eq_zero {rows : List (κ × M)} {k : κ} (h : ∀ r ∈ rows, r.1 ≠ k) : total rows k = 0 := by
  have hfilter : rows.filter (·.1 = k) = [] := by
    refine List.filter_eq_nil_iff.2 ?_
    intro r hr
    simpa using h r hr
  rw [total, hfilter]
  rfl

/-- Leaving out rows of other keys keeps the total. -/
theorem total_filter {rows : List (κ × M)} {p : κ × M → Bool} {k : κ}
    (h : ∀ r ∈ rows, r.1 = k → p r = true) : total (rows.filter p) k = total rows k := by
  unfold total
  rw [List.filter_filter]
  congr 2
  refine List.filter_congr ?_
  intro r hr
  by_cases hk : r.1 = k
  · simp [hk, h r hr hk]
  · simp [hk]

/-- Leaving out elements whose rows are of other keys keeps the total. -/
theorem total_map_filter {α : Type} {f : α → κ × M} {p : α → Bool} {xs : List α} {k : κ}
    (h : ∀ x ∈ xs, (f x).1 = k → p x = true) : total ((xs.filter p).map f) k = total (xs.map f) k := by
  induction xs with
  | nil => rfl
  | cons x xs ih =>
      have hrest := ih fun y hy => h y (List.mem_cons_of_mem _ hy)
      rw [List.map_cons, total_cons, List.filter_cons]
      split_ifs with hp hk hk
      · rw [List.map_cons, total_cons, if_pos hk, hrest]
      · rw [List.map_cons, total_cons, if_neg hk, hrest]
      · exact absurd (h x (List.mem_cons_self ..) hk) hp
      · rw [hrest, zero_add]

theorem total_flatMap {α : Type} (f : α → List (κ × M)) (xs : List α) (k : κ) :
    total (xs.flatMap f) k = (xs.map fun x => total (f x) k).sum := by
  induction xs with
  | nil => rfl
  | cons x xs ih => rw [List.flatMap_cons, total_append, ih, List.map_cons, List.sum_cons]

theorem keys_groupSum (rows : List (κ × M)) :
    (groupSum rows).map Prod.fst = (rows.map Prod.fst).dedup := by
  simp [groupSum, List.map_map, Function.comp_def]

theorem mem_keys_groupSum {rows : List (κ × M)} {k : κ} :
    k ∈ (groupSum rows).map Prod.fst ↔ k ∈ rows.map Prod.fst := by
  rw [keys_groupSum, List.mem_dedup]

theorem nodup_keys_groupSum (rows : List (κ × M)) : ((groupSum rows).map Prod.fst).Nodup := by
  rw [keys_groupSum]
  exact List.nodup_dedup _

/-- A table with distinct keys has, as the total of a key, the value of its row. -/
theorem total_of_mem {rows : List (κ × M)} {k : κ} {m : M} (hnodup : (rows.map Prod.fst).Nodup)
    (h : (k, m) ∈ rows) : total rows k = m := by
  induction rows with
  | nil => simp at h
  | cons r rows ih =>
      rw [List.map_cons, List.nodup_cons] at hnodup
      rw [total_cons]
      rcases List.mem_cons.1 h with rfl | hrest
      · have hzero : total rows k = 0 := by
          refine total_eq_zero ?_
          intro r hr hk
          exact hnodup.1 (List.mem_map.2 ⟨r, hr, hk⟩)
        rw [if_pos rfl, hzero, add_zero]
      · have hne : r.1 ≠ k := by
          intro hk
          exact hnodup.1 (List.mem_map.2 ⟨(k, m), hrest, hk.symm⟩)
        rw [if_neg hne, zero_add, ih hnodup.2 hrest]

/-- Grouping keeps the totals. -/
theorem total_groupSum (rows : List (κ × M)) (k : κ) : total (groupSum rows) k = total rows k := by
  by_cases h : k ∈ rows.map Prod.fst
  · have hmem : (k, total rows k) ∈ groupSum rows :=
      List.mem_map_of_mem (f := fun k => (k, total rows k)) (List.mem_dedup.2 h)
    exact total_of_mem (nodup_keys_groupSum rows) hmem
  · have hnone : ∀ r ∈ rows, r.1 ≠ k := by
      rintro r hr rfl
      exact h (List.mem_map_of_mem hr)
    have hnone' : ∀ r ∈ groupSum rows, r.1 ≠ k := by
      rintro r hr rfl
      exact h (mem_keys_groupSum.1 (List.mem_map_of_mem hr))
    rw [total_eq_zero hnone, total_eq_zero hnone']

/-! ## Groups of elements -/

variable {α : Type}

/-- The elements under each key. -/
def groups (key : α → κ) (xs : List α) : List (κ × List α) :=
  (xs.map key).dedup.map fun k => (k, xs.filter (key · = k))

theorem keys_groups (key : α → κ) (xs : List α) :
    (groups key xs).map Prod.fst = (xs.map key).dedup := by
  simp [groups, List.map_map, Function.comp_def]

theorem mem_keys_groups {key : α → κ} {xs : List α} {k : κ} :
    k ∈ (groups key xs).map Prod.fst ↔ ∃ x ∈ xs, key x = k := by
  rw [keys_groups, List.mem_dedup, List.mem_map]

theorem sum_map_ite {ks : List κ} (hks : ks.Nodup) {k : κ} (hk : k ∈ ks) (m : M) :
    (ks.map fun k' => if k = k' then m else 0).sum = m := by
  induction ks with
  | nil => cases hk
  | cons k' ks ih =>
      obtain ⟨hnot, hks⟩ := List.nodup_cons.1 hks
      rw [List.map_cons, List.sum_cons]
      rcases List.mem_cons.1 hk with rfl | hk
      · have hzero : (ks.map fun k' => if k = k' then m else 0).sum = 0 := by
          refine List.sum_eq_zero fun y hy => ?_
          obtain ⟨k', hk', rfl⟩ := List.mem_map.1 hy
          exact if_neg fun heq : k = k' => hnot (heq ▸ hk')
        rw [if_pos rfl, hzero, add_zero]
      · have hne : k ≠ k' := fun heq => hnot (heq ▸ hk)
        rw [if_neg hne, zero_add, ih hks hk]

/-- The sums of the groups add up to the sum of all elements. -/
theorem sum_groups (key : α → κ) (f : α → M) (xs : List α) :
    ((groups key xs).map fun g => (g.2.map f).sum).sum = (xs.map f).sum := by
  have hcover : ∀ {ks : List κ}, ks.Nodup → ∀ xs : List α, (∀ x ∈ xs, key x ∈ ks) →
      (ks.map fun k => ((xs.filter (key · = k)).map f).sum).sum = (xs.map f).sum := by
    intro ks hks xs hxs
    induction xs with
    | nil => simp
    | cons x xs ih =>
        obtain ⟨hx, hxs⟩ := List.forall_mem_cons.1 hxs
        have hcons : ∀ k, (((x :: xs).filter (key · = k)).map f).sum
            = (if key x = k then f x else 0) + ((xs.filter (key · = k)).map f).sum := by
          intro k
          rw [List.filter_cons]
          by_cases hk : key x = k
          · simp [hk]
          · simp [hk]
        simp only [hcons, List.sum_map_add, sum_map_ite hks hx, ih hxs, List.map_cons, List.sum_cons]
  unfold groups
  rw [List.map_map]
  exact hcover (List.nodup_dedup _) xs fun x hx => List.mem_dedup.2 (List.mem_map_of_mem hx)

/-- What the groups count, all elements count. -/
theorem sum_countP_groups (key : α → κ) (p : α → Bool) (xs : List α) :
    ((groups key xs).map fun g => (g.2.countP p : Int)).sum = xs.countP p := by
  have hcount : ∀ ys : List α, (ys.countP p : Int) = (ys.map fun y => if p y then 1 else 0).sum := by
    intro ys
    induction ys with
    | nil => rfl
    | cons y ys ih =>
        rw [List.countP_cons, List.map_cons, List.sum_cons, ← ih, add_comm]
        push_cast
        rfl
  simp only [hcount]
  exact sum_groups key _ xs

end Grouped
