import Tethra.Lib.Keyed

set_option autoImplicit false

/-! # The last under each key

Elements put into a keyed list one after the other: of those with one key, the last stays. -/

namespace Keyed

variable {α β κ ι : Type} [DecidableEq κ] [DecidableEq ι] (key : α → κ)

/-- Put an element in the place of the one with its key, or behind all. -/
def put (x : α) (xs : List α) : List α := upsert key (key x) (fun _ => x) x xs

/-- The elements that none with their key follows. -/
def lasts : List α → List α
  | [] => []
  | x :: xs => if key x ∈ xs.map key then lasts xs else x :: lasts xs

variable {key} {x y : α} {xs db : List α}

theorem mem_put : y ∈ put key x xs ↔ (y ∈ xs ∧ key y ≠ key x) ∨ y = x := by
  have hany : xs.any (key · = key x) = true ↔ ∃ z ∈ xs, key z = key x := by simp [List.any_eq_true]
  unfold put upsert
  by_cases h : ∃ z ∈ xs, key z = key x
  · rw [if_pos (hany.2 h), mem_modify]
    constructor
    · rintro ⟨z, hz, rfl⟩
      by_cases hk : key z = key x
      · exact .inr (if_pos hk)
      · rw [if_neg hk]
        exact .inl ⟨hz, hk⟩
    · rintro (⟨hy, hk⟩ | rfl)
      · exact ⟨y, hy, (if_neg hk).symm⟩
      · obtain ⟨z, hz, hk⟩ := h
        exact ⟨z, hz, (if_pos hk).symm⟩
  · rw [if_neg (hany.not.2 h), List.mem_append, List.mem_singleton]
    refine or_congr ⟨fun hy => ⟨hy, fun hk => h ⟨y, hy, hk⟩⟩, And.left⟩ Iff.rfl

theorem mem_lasts_cons : y ∈ lasts key (x :: xs) ↔ (y = x ∧ key x ∉ xs.map key) ∨ y ∈ lasts key xs := by
  rw [lasts]
  by_cases h : key x ∈ xs.map key
  · simp [h]
  · rw [if_neg h, List.mem_cons]
    simp only [h, not_false_eq_true, and_true]

theorem lasts_sublist : (lasts key xs).Sublist xs := by
  induction xs with
  | nil => exact .slnil
  | cons x xs ih =>
      rw [lasts]
      split
      · exact ih.cons x
      · exact ih.cons_cons x

/-- Each key still has an element. -/
theorem mem_keys_lasts {k : κ} (h : k ∈ xs.map key) : k ∈ (lasts key xs).map key := by
  induction xs with
  | nil => cases h
  | cons x xs ih =>
      rw [lasts]
      by_cases hx : key x ∈ xs.map key
      · rw [if_pos hx]
        refine ih ((List.mem_cons.1 h).elim (fun hk => ?_) id)
        exact hk ▸ hx
      · rw [if_neg hx, List.map_cons, List.mem_cons]
        exact (List.mem_cons.1 h).imp_right ih

theorem nodup_keys_lasts : ((lasts key xs).map key).Nodup := by
  induction xs with
  | nil => exact List.nodup_nil
  | cons x xs ih =>
      rw [lasts]
      split
      · exact ih
      · rename_i hx
        rw [List.map_cons, List.nodup_cons]
        refine ⟨fun hmem => hx ?_, ih⟩
        obtain ⟨y, hy, hk⟩ := List.mem_map.1 hmem
        exact List.mem_map.2 ⟨y, lasts_sublist.subset hy, hk⟩

/-- Elements whose keys tell the same apart have the same last ones. -/
theorem lasts_map {key' : β → ι} {g : β → α} (h : ∀ a b, key (g a) = key (g b) ↔ key' a = key' b) (bs : List β) :
    lasts key (bs.map g) = (lasts key' bs).map g := by
  induction bs with
  | nil => rfl
  | cons b bs ih =>
      have hin : key (g b) ∈ (bs.map g).map key ↔ key' b ∈ bs.map key' := by
        simp only [List.mem_map, List.map_map, Function.comp_apply, h]
      rw [List.map_cons, lasts, lasts, ih]
      by_cases hb : key' b ∈ bs.map key'
      · rw [if_pos hb, if_pos (hin.2 hb)]
      · rw [if_neg hb, if_neg (hin.not.2 hb), List.map_cons]

/-- What is put last under its key is there, with what was there under no such key. -/
theorem mem_foldl_put : y ∈ xs.foldl (fun db x => put key x db) db ↔
    (y ∈ db ∧ key y ∉ xs.map key) ∨ y ∈ lasts key xs := by
  induction xs generalizing db with
  | nil => simp [lasts]
  | cons x xs ih =>
      rw [List.foldl_cons, ih, mem_put, mem_lasts_cons, List.map_cons, List.mem_cons, not_or]
      constructor
      · rintro (⟨⟨hy, hk⟩ | rfl, hnot⟩ | hy)
        · exact .inl ⟨hy, hk, hnot⟩
        · exact .inr (.inl ⟨rfl, hnot⟩)
        · exact .inr (.inr hy)
      · rintro (⟨hy, hk, hnot⟩ | ⟨rfl, hnot⟩ | hy)
        · exact .inl ⟨.inl ⟨hy, hk⟩, hnot⟩
        · exact .inl ⟨.inr rfl, hnot⟩
        · exact .inr hy

theorem nodup_keys_foldl_put (h : (db.map key).Nodup) : ((xs.foldl (fun db x => put key x db) db).map key).Nodup := by
  induction xs generalizing db with
  | nil => exact h
  | cons x xs ih => exact ih (nodup_keys_upsert (fun _ _ => rfl) rfl h)

/-- Into an empty list, the last ones are put. -/
theorem perm_foldl_put : (xs.foldl (fun db x => put key x db) []).Perm (lasts key xs) := by
  have hnodup : ((xs.foldl (fun db x => put key x db) []).map key).Nodup := nodup_keys_foldl_put List.nodup_nil
  rw [List.perm_ext_iff_of_nodup hnodup.of_map nodup_keys_lasts.of_map]
  intro y
  rw [mem_foldl_put]
  simp

end Keyed
