import Mathlib

set_option autoImplicit false

/-! # The parts between separators

What stands in a list and what stands in the parts of `List.splitOn`: a part has no separator in it
(`sep_notMem`), and it is what stands between two separators, or between one and an end
(`between_of_splitOn`, `mem_splitOn_of_between`). -/

namespace Segments

variable {α : Type} [DecidableEq α] {sep a : α} {s seg : List α}

/-- What follows a part: nothing, or a separator. -/
def Ends (sep : α) (rest : List α) : Prop := rest = [] ∨ ∃ more, rest = sep :: more

theorem splitOn_cons_sep (s : List α) : (sep :: s).splitOn sep = [] :: s.splitOn sep := by
  simp [List.splitOn, List.splitOnP_cons]

theorem splitOn_cons_of_ne {p : List α} {ps : List (List α)} (h : s.splitOn sep = p :: ps)
    (ha : a ≠ sep) : (a :: s).splitOn sep = (a :: p) :: ps := by
  rw [List.splitOn_cons_eq_if_modifyHead, if_neg (by simpa using ha), h]
  rfl

/-- No part has a separator in it. -/
theorem sep_notMem (h : seg ∈ s.splitOn sep) : sep ∉ seg := by
  induction s generalizing seg with
  | nil => simp_all
  | cons b s ih =>
      obtain ⟨p, ps, hps⟩ := List.exists_cons_of_ne_nil (List.splitOn_ne_nil sep s)
      by_cases hb : b = sep
      · rw [hb, splitOn_cons_sep] at h
        rcases List.mem_cons.1 h with rfl | h
        · exact List.not_mem_nil
        · exact ih h
      · rw [splitOn_cons_of_ne hps hb] at h
        rcases List.mem_cons.1 h with rfl | h
        · have hp := ih (hps ▸ List.mem_cons_self)
          exact fun hmem => (List.mem_cons.1 hmem).elim (fun heq => hb heq.symm) hp
        · exact ih (hps ▸ List.mem_cons_of_mem _ h)

/-- The first part begins the list, and every other one stands behind a separator. -/
theorem between_of_splitOn {p : List α} {ps : List (List α)} (h : s.splitOn sep = p :: ps) :
    (∃ rest, s = p ++ rest ∧ Ends sep rest) ∧
      ∀ seg ∈ ps, ∃ before rest, s = before ++ sep :: (seg ++ rest) ∧ Ends sep rest := by
  induction s generalizing p ps with
  | nil =>
      obtain ⟨rfl, rfl⟩ := List.cons.inj h
      exact ⟨⟨[], rfl, Or.inl rfl⟩, nofun⟩
  | cons b s ih =>
      obtain ⟨q, qs, hqs⟩ := List.exists_cons_of_ne_nil (List.splitOn_ne_nil sep s)
      obtain ⟨⟨rest, hrest, hends⟩, hall⟩ := ih hqs
      by_cases hb : b = sep
      · rw [hb, splitOn_cons_sep, hqs] at h
        obtain ⟨rfl, rfl⟩ := List.cons.inj h
        refine ⟨⟨b :: s, rfl, Or.inr ⟨s, by rw [hb]⟩⟩, List.forall_mem_cons.2 ⟨?_, fun seg hseg => ?_⟩⟩
        · exact ⟨[], rest, by rw [hb, hrest]; rfl, hends⟩
        · obtain ⟨before, more, heq, hmore⟩ := hall seg hseg
          exact ⟨b :: before, more, by rw [heq]; rfl, hmore⟩
      · rw [splitOn_cons_of_ne hqs hb] at h
        obtain ⟨rfl, rfl⟩ := List.cons.inj h
        refine ⟨⟨rest, by rw [hrest]; rfl, hends⟩, fun seg hseg => ?_⟩
        obtain ⟨before, more, heq, hmore⟩ := hall seg hseg
        exact ⟨b :: before, more, by rw [heq]; rfl, hmore⟩

/-- What stands between two separators, or behind the last one, is a part. -/
theorem mem_splitOn_of_between {before rest : List α} (hseg : sep ∉ seg) (hends : Ends sep rest) :
    seg ∈ (before ++ sep :: (seg ++ rest)).splitOn sep := by
  rw [List.splitOn_append_cons_self, List.mem_append]
  refine Or.inr ?_
  rcases hends with rfl | ⟨more, rfl⟩
  · rw [List.append_nil, List.splitOn_eq_singleton hseg]
    exact List.mem_singleton_self seg
  · rw [List.splitOn_append_cons_self, List.splitOn_eq_singleton hseg]
    exact List.mem_cons_self

theorem mem_of_mem_part (hseg : seg ∈ s.splitOn sep) (ha : a ∈ seg) : a ∈ s := by
  obtain ⟨p, ps, hps⟩ := List.exists_cons_of_ne_nil (List.splitOn_ne_nil sep s)
  obtain ⟨⟨rest, hrest, -⟩, hall⟩ := between_of_splitOn hps
  rw [hps] at hseg
  rcases List.mem_cons.1 hseg with rfl | hseg
  · rw [hrest]
    exact List.mem_append_left _ ha
  · obtain ⟨before, more, heq, -⟩ := hall seg hseg
    rw [heq]
    simp [ha]

/-- An element is the separator or stands in a part. -/
theorem mem_part (ha : a ∈ s) : a = sep ∨ ∃ seg ∈ s.splitOn sep, a ∈ seg := by
  induction s with
  | nil => cases ha
  | cons b s ih =>
      obtain ⟨p, ps, hps⟩ := List.exists_cons_of_ne_nil (List.splitOn_ne_nil sep s)
      by_cases hb : b = sep
      · rcases List.mem_cons.1 ha with rfl | ha
        · exact Or.inl hb
        · rw [hb, splitOn_cons_sep]
          exact (ih ha).imp_right fun ⟨seg, hseg, hin⟩ => ⟨seg, List.mem_cons_of_mem _ hseg, hin⟩
      · rw [splitOn_cons_of_ne hps hb]
        rcases List.mem_cons.1 ha with rfl | ha
        · exact Or.inr ⟨a :: p, List.mem_cons_self, List.mem_cons_self⟩
        · refine (ih ha).imp_right ?_
          rintro ⟨seg, hseg, hin⟩
          rw [hps] at hseg
          rcases List.mem_cons.1 hseg with rfl | hseg
          · exact ⟨b :: seg, List.mem_cons_self, List.mem_cons_of_mem _ hin⟩
          · exact ⟨seg, List.mem_cons_of_mem _ hseg, hin⟩

end Segments
