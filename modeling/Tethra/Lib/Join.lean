import Mathlib

set_option autoImplicit false

/-! # Maxima of what is there

`Option.merge max` joins two values that may be absent. `IsMaxOf P o` says that `o` is the greatest value with
`P`, and is absent when no value has it; it determines `o`, so joins do not depend on order or repetition. -/

namespace Join

variable {α β : Type} [LinearOrder α] {P Q : α → Prop} {o q : Option α}

/-- `o` is the greatest value with `P`; it is absent when there is none. -/
structure IsMaxOf (P : α → Prop) (o : Option α) : Prop where
  mem : ∀ n, o = some n → P n
  le : ∀ m, P m → ∃ n, o = some n ∧ m ≤ n

theorem IsMaxOf.unique (ho : IsMaxOf P o) (hq : IsMaxOf P q) : o = q := by
  cases o with
  | none =>
      cases q with
      | none => rfl
      | some m =>
          obtain ⟨n, hn, -⟩ := ho.le m (hq.mem m rfl)
          cases hn
  | some n =>
      obtain ⟨m, rfl, hnm⟩ := hq.le n (ho.mem n rfl)
      obtain ⟨n', hn', hmn⟩ := ho.le m (hq.mem m rfl)
      obtain rfl := Option.some.inj hn'
      rw [le_antisymm hnm hmn]

theorem IsMaxOf.congr (h : IsMaxOf P o) (hPQ : ∀ n, P n ↔ Q n) : IsMaxOf Q o :=
  ⟨fun n hn => (hPQ n).1 (h.mem n hn), fun m hm => h.le m ((hPQ m).2 hm)⟩

theorem isMaxOf_none : IsMaxOf (fun _ : α => False) none where
  mem _ h := by cases h
  le _ h := h.elim

theorem isMaxOf_self (o : Option α) : IsMaxOf (fun n => o = some n) o :=
  ⟨fun _ h => h, fun m h => ⟨m, h, le_rfl⟩⟩

theorem IsMaxOf.merge (ho : IsMaxOf P o) (hq : IsMaxOf Q q) :
    IsMaxOf (fun n => P n ∨ Q n) (Option.merge max o q) := by
  cases o with
  | none =>
      rw [Option.merge_none_left]
      refine ⟨fun n hn => .inr (hq.mem n hn), ?_⟩
      rintro m (hm | hm)
      · obtain ⟨n, hn, -⟩ := ho.le m hm
        cases hn
      · exact hq.le m hm
  | some a =>
      cases q with
      | none =>
          rw [Option.merge_none_right]
          refine ⟨fun n hn => .inl (ho.mem n hn), ?_⟩
          rintro m (hm | hm)
          · exact ho.le m hm
          · obtain ⟨n, hn, -⟩ := hq.le m hm
            cases hn
      | some b =>
          refine ⟨?_, ?_⟩
          · rintro n hn
            obtain rfl := Option.some.inj hn
            rcases max_choice a b with h | h
            · rw [h]
              exact .inl (ho.mem a rfl)
            · rw [h]
              exact .inr (hq.mem b rfl)
          · rintro m (hm | hm)
            · obtain ⟨n, hn, hle⟩ := ho.le m hm
              obtain rfl := Option.some.inj hn
              exact ⟨max a b, rfl, hle.trans (le_max_left a b)⟩
            · obtain ⟨n, hn, hle⟩ := hq.le m hm
              obtain rfl := Option.some.inj hn
              exact ⟨max a b, rfl, hle.trans (le_max_right a b)⟩

/-- A fold of joins has the greatest of all that is carried. -/
theorem isMaxOf_foldl (f : β → Option α) (l : List β) (ho : IsMaxOf P o) :
    IsMaxOf (fun n => P n ∨ ∃ b ∈ l, f b = some n) (l.foldl (fun o b => Option.merge max o (f b)) o) := by
  induction l generalizing P o with
  | nil => exact ho.congr fun n => by simp
  | cons b l ih =>
      rw [List.foldl_cons]
      refine (ih (ho.merge (isMaxOf_self (f b)))).congr fun n => ?_
      simp only [List.mem_cons, exists_eq_or_imp, or_assoc]

end Join
