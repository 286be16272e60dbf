import Tethra.Lib.SlotsUndo

set_option autoImplicit false

/-! # Conflicting markers are lost

When a marker stands above an owned key before the edits, the edits do not add one there, but the
undo strips one. `markers_lost` counts: after edits and undo there are fewer markers than before as
soon as one key was in conflict. The count rests on `Tagged`, that a marker stands above an
occurrence, which no edit or undo of another key destroys. -/

namespace Slots

variable {κ ν τ : Type} [DecidableEq κ] (M : Marking τ)
  {s : List (Slot κ ν τ)}

/-! ## A marker above an occurrence -/

/-- `k` occurs, and a marker stands directly above its first occurrence. -/
def Tagged (mk : τ → Bool) (k : κ) (s : List (Slot κ ν τ)) : Prop :=
  ∃ a t v b, s = a ++ Slot.other t :: .occ k v :: b ∧ present k a = false ∧ mk t = true

theorem tagged_iff {mk : τ → Bool} {k : κ} :
    Tagged mk k s ↔ present k s = true ∧ markerAbove mk k s = true := by
  have hsplit : ∀ a t v b, (a ++ Slot.other t :: .occ k v :: b : List (Slot κ ν τ))
      = (a ++ [Slot.other t]) ++ Slot.occ k v :: b := by simp
  constructor
  · rintro ⟨a, t, v, b, rfl, ha, ht⟩
    have hat : present k (a ++ [Slot.other t]) = false := by simp [ha]
    refine ⟨by simp, ?_⟩
    rw [markerAbove, hsplit, before_append hat]
    simpa using ht
  · rintro ⟨hp, hm⟩
    obtain ⟨a, v, b, rfl, ha⟩ := exists_first hp
    rw [markerAbove, before_append ha] at hm
    cases a using List.reverseRecOn with
    | nil => simp at hm
    | append_singleton a l _ =>
        cases l with
        | occ k' v' => simp at hm
        | other t =>
            simp only [present_append, Bool.or_eq_false_iff] at ha
            exact ⟨a, t, v, b, by simp, ha.1, by simpa using hm⟩

theorem present_false_of_occs {k : κ} {s s' : List (Slot κ ν τ)} (h : occs s = occs s')
    (hp : present k s' = false) : present k s = false := by
  rw [present_eq_of_occs h, hp]

theorem Tagged.map_setFor {mk : τ → Bool} {k : κ} (h : Tagged mk k s)
    (k' : κ) (v : ν) : Tagged mk k (s.map (Slot.setFor k' v)) := by
  rw [tagged_iff] at h ⊢
  rw [present_map_setFor, markerAbove_map_setFor]
  exact h

theorem Tagged.set {mk : τ → Bool} {k : κ} (h : Tagged mk k s) (k' : κ)
    (v : ν) : Tagged mk k (set k' v s) := by
  unfold Slots.set
  split
  · exact h.map_setFor k' v
  · obtain ⟨a, t, w, b, rfl, ha, ht⟩ := h
    exact ⟨a, t, w, b ++ [Slot.occ k' v], by simp, ha, ht⟩

theorem assign_append (k : κ) (last : ν) (vs : List ν) (a b : List (Slot κ ν τ)) :
    ∃ vs', assign k last vs (a ++ b) = assign k last vs a ++ assign k last vs' b := by
  induction a generalizing vs with
  | nil => exact ⟨vs, rfl⟩
  | cons l a ih =>
      simp only [List.cons_append, assign]
      split
      · obtain ⟨vs', h⟩ := ih vs.tail
        exact ⟨vs', by rw [h]; rfl⟩
      · obtain ⟨vs', h⟩ := ih vs
        exact ⟨vs', by rw [h]; rfl⟩

theorem Tagged.assign {mk : τ → Bool} {k : κ} (h : Tagged mk k s) (k' : κ)
    (last : ν) (vs : List ν) : Tagged mk k (assign k' last vs s) := by
  obtain ⟨a, t, w, b, rfl, ha, ht⟩ := h
  obtain ⟨vs', hcut⟩ := assign_append k' last vs a (.other t :: .occ k w :: b)
  rw [hcut]
  have ha' : present k (Slots.assign k' last vs a) = false := by rw [present_assign, ha]
  by_cases hk : k = k'
  · exact ⟨_, t, vs'.headD last, Slots.assign k' last vs'.tail b,
      by simp [Slots.assign, Slot.setFor, hk], ha', ht⟩
  · exact ⟨_, t, w, Slots.assign k' last vs' b, by simp [Slots.assign, hk], ha', ht⟩

theorem Tagged.assignAll {mk : τ → Bool} {k : κ} (h : Tagged mk k s)
    (k' : κ) (vs : List ν) : Tagged mk k (assignAll k' vs s) := by
  unfold Slots.assignAll
  split
  · exact h
  · exact h.assign k' _ vs

/-- An occurrence of another key shields what stands above it: `before k'` ends below it. -/
theorem before_shield {k k' : κ} (hne : k ≠ k') {a : List (Slot κ ν τ)}
    (ha : present k' a = false) (v : ν) (b : List (Slot κ ν τ)) :
    before k' (a ++ Slot.occ k v :: b) = a ++ Slot.occ k v :: before k' b ∧
      after k' (a ++ Slot.occ k v :: b) = after k' b := by
  have hall : ∀ l ∈ a ++ [Slot.occ k v], (!l.isFor k') = true := by
    have hp : present k' (a ++ [Slot.occ k v]) = false := by simp [ha, hne]
    rw [present, List.any_eq_false] at hp
    intro l hl
    simpa using hp l hl
  have hassoc := List.append_cons a (.occ k v) b
  rw [hassoc]
  constructor
  · rw [before, List.takeWhile_append_of_pos hall]
    simp [before]
  · rw [after, List.dropWhile_append_of_pos hall]
    rfl

omit [DecidableEq κ] in
theorem dropMarker_shield (mk : τ → Bool) (a : List (Slot κ ν τ)) (k : κ) (v : ν)
    (q : List (Slot κ ν τ)) :
    ∃ q', dropMarker mk (a ++ Slot.occ k v :: q) = a ++ Slot.occ k v :: q' := by
  cases q using List.reverseRecOn with
  | nil => exact ⟨[], by simp [dropMarker]⟩
  | append_singleton q l _ =>
      have hassoc : a ++ Slot.occ k v :: (q ++ [l]) = (a ++ Slot.occ k v :: q) ++ [l] := by simp
      rw [hassoc, dropMarker, List.getLast?_concat]
      simp only
      split
      · exact ⟨q, by rw [List.dropLast_concat]⟩
      · exact ⟨q ++ [l], by simp⟩

/-! ### Steps of another key -/

theorem Tagged.strip {mk : τ → Bool} {k k' : κ} (h : Tagged mk k s)
    (hne : k ≠ k') : Tagged mk k (strip mk k' s) := by
  obtain ⟨a, t, v, b, rfl, ha, ht⟩ := h
  cases hp : present k' a with
  | true =>
      rw [strip_append_present hp]
      exact ⟨_, t, v, b, rfl, present_false_of_occs (occs_strip mk k' a) ha, ht⟩
  | false =>
      have hat : present k' (a ++ [Slot.other t]) = false := by simp [hp]
      have hassoc := List.append_cons a (.other t) (.occ k v :: b)
      unfold Slots.strip
      split
      · rw [hassoc, (before_shield hne hat v b).1, (before_shield hne hat v b).2]
        obtain ⟨q, hq⟩ := dropMarker_shield mk (a ++ [Slot.other t]) k v (before k' b)
        rw [hq]
        exact ⟨a, t, v, q ++ after k' b, by simp, ha, ht⟩
      · exact ⟨a, t, v, b, rfl, ha, ht⟩

theorem foldl_removeStep_shield (mk : τ → Bool) (k k' : κ) (v : ν) (a q b : List (Slot κ ν τ)) :
    ∃ q', b.foldl (removeStep mk k') (a ++ Slot.occ k v :: q) = a ++ Slot.occ k v :: q' := by
  induction b generalizing q with
  | nil => exact ⟨q, rfl⟩
  | cons l b ih =>
      rw [List.foldl_cons, removeStep]
      split
      · obtain ⟨q', hq⟩ := dropMarker_shield mk a k v q
        rw [hq]
        exact ih q'
      · rw [List.append_assoc, List.cons_append]
        exact ih (q ++ [l])

theorem Tagged.remove {mk : τ → Bool} {k k' : κ} (h : Tagged mk k s)
    (hne : k ≠ k') : Tagged mk k (remove mk k' s) := by
  obtain ⟨a, t, v, b, rfl, ha, ht⟩ := h
  have hacc : present k (a.foldl (removeStep mk k') []) = false := by
    have hval := values_remove_ne mk hne a
    rw [values_of_absent ha] at hval
    cases hp : present k (a.foldl (removeStep mk k') []) with
    | false => rfl
    | true => exact absurd hval (present_iff_values.1 hp)
  obtain ⟨q, hq⟩ := foldl_removeStep_shield mk k k' v
    (a.foldl (removeStep mk k') [] ++ [Slot.other t]) [] b
  refine ⟨a.foldl (removeStep mk k') [], t, v, q, ?_, hacc, ht⟩
  have hstep : removeStep mk k' (removeStep mk k' (a.foldl (removeStep mk k') []) (.other t))
      (.occ k v) = (a.foldl (removeStep mk k') [] ++ [Slot.other t]) ++ [Slot.occ k v] := by
    simp [removeStep, hne]
  rw [Slots.remove, List.foldl_append, List.foldl_cons, List.foldl_cons, hstep, hq]
  simp

theorem markerAbove_append {mk : τ → Bool} {k : κ} {a : List (Slot κ ν τ)}
    (hp : present k a = true) (b : List (Slot κ ν τ)) :
    markerAbove mk k (a ++ b) = markerAbove mk k a := by
  rw [markerAbove, markerAbove, before_append_present hp]

theorem annotate_append (mk keep : τ → Bool) {k : κ} (m : τ) {a : List (Slot κ ν τ)}
    (hp : present k a = true) (b : List (Slot κ ν τ)) :
    annotate mk keep k m (a ++ b) = annotate mk keep k m a ++ b := by
  unfold annotate
  rw [before_append_present hp, after_append_present hp, markerAbove_append hp,
    markerAbove_append hp]
  split
  · rfl
  · split <;> simp

theorem Tagged.annotate {mk keep : τ → Bool} {m : τ} {k k' : κ}
    (h : Tagged mk k s) (hne : k ≠ k') : Tagged mk k (annotate mk keep k' m s) := by
  obtain ⟨a, t, v, b, rfl, ha, ht⟩ := h
  cases hp : present k' a with
  | true =>
      rw [annotate_append mk keep m hp]
      exact ⟨_, t, v, b, rfl, present_false_of_occs (occs_annotate mk keep k' m a) ha, ht⟩
  | false =>
      have hat : present k' (a ++ [Slot.other t]) = false := by simp [hp]
      have hassoc := List.append_cons a (.other t) (.occ k v :: b)
      obtain ⟨hb, haf⟩ := before_shield hne hat v b
      unfold Slots.annotate
      rw [hassoc, haf]
      split
      · exact ⟨a, t, v, b, by simp, ha, ht⟩
      · split
        · rename_i hm
          rw [markerAbove, hb] at hm
          rw [hb]
          cases hq : before k' b using List.reverseRecOn with
          | nil => simp [hq] at hm
          | append_singleton q l _ =>
              have hcut : (a ++ [Slot.other t] ++ Slot.occ k v :: (q ++ [l])).dropLast
                  = a ++ [Slot.other t] ++ Slot.occ k v :: q := by
                rw [← List.cons_append, ← List.append_assoc, List.dropLast_concat]
              rw [hcut]
              exact ⟨a, t, v, q ++ Slot.other m :: after k' b, by simp, ha, ht⟩
        · rw [hb]
          exact ⟨a, t, v, before k' b ++ Slot.other m :: after k' b, by simp, ha, ht⟩

theorem Tagged.linkItem {k : κ} {it : Item κ ν}
    (h : Tagged M.isMarker k s) (hne : k ≠ it.key) : Tagged M.isMarker k (linkItem M it s) := by
  unfold Slots.linkItem
  split
  · exact (h.set it.key it.written).annotate hne
  · exact h.set it.key it.written

theorem Tagged.restoreItem {k : κ} {it : Item κ ν}
    (h : Tagged M.isMarker k s) (hne : k ≠ it.key) :
    Tagged M.isMarker k (restoreItem M it s) := by
  unfold Slots.restoreItem
  split
  · exact h.remove hne
  · refine Tagged.strip ?_ hne
    split
    · exact h.assignAll it.key it.all
    · exact h.set it.key _

/-! ## Counting markers -/

omit [DecidableEq κ] in
theorem markers_dropMarker (mk : τ → Bool) (s : List (Slot κ ν τ)) :
    markers mk (dropMarker mk s) + (if s.getLast?.any (Slot.isMarker mk) then 1 else 0)
      = markers mk s := by
  cases s using List.reverseRecOn with
  | nil => rfl
  | append_singleton s l =>
      cases l with
      | occ k v => simp [dropMarker]
      | other t =>
          cases ht : mk t with
          | false => simp [dropMarker, ht]
          | true =>
              rw [dropMarker_append_marker ht]
              simp [ht, markers_cons_other]

@[simp] theorem markers_map_setFor (mk : τ → Bool) (k : κ) (v : ν) (s : List (Slot κ ν τ)) :
    markers mk (s.map (Slot.setFor k v)) = markers mk s := by
  induction s with
  | nil => rfl
  | cons l s ih =>
      cases l with
      | other t => simp [Slot.setFor, markers_cons_other, ih]
      | occ k' w => by_cases hk : k' = k <;> simp [Slot.setFor, hk, ih]

@[simp] theorem markers_set (mk : τ → Bool) (k : κ) (v : ν) (s : List (Slot κ ν τ)) :
    markers mk (set k v s) = markers mk s := by
  unfold set
  split <;> simp

@[simp] theorem markers_assign (mk : τ → Bool) (k : κ) (last : ν) (vs : List ν)
    (s : List (Slot κ ν τ)) : markers mk (assign k last vs s) = markers mk s := by
  induction s generalizing vs with
  | nil => rfl
  | cons l s ih =>
      cases l with
      | other t => simp [assign, markers_cons_other, ih]
      | occ k' w => by_cases hk : k' = k <;> simp [assign, Slot.setFor, hk, ih]

@[simp] theorem markers_assignAll (mk : τ → Bool) (k : κ) (vs : List ν) (s : List (Slot κ ν τ)) :
    markers mk (assignAll k vs s) = markers mk s := by
  unfold assignAll
  split <;> simp

theorem markers_before_after (mk : τ → Bool) (k : κ) (s : List (Slot κ ν τ)) :
    markers mk (before k s) + markers mk (after k s) = markers mk s := by
  rw [← markers_append, before_append_after]

/-- A marker above the key makes room for the new one. -/
theorem markers_annotate (k : κ) (s : List (Slot κ ν τ)) :
    markers M.isMarker (annotate M.isMarker M.keeps k M.marker s)
      + (if markerAbove M.isMarker k s then 1 else 0) ≤ markers M.isMarker s + 1 := by
  have hcut := markers_before_after M.isMarker k s
  cases h : markerAbove M.isMarker k s with
  | false =>
      rw [annotate_of_not_markerAbove M h, markers_append, markers_cons_other, M.isMarker_marker]
      simp only [Bool.false_eq_true, if_false, if_true]
      omega
  | true =>
      obtain ⟨t, hlast, ht⟩ := before_of_markerAbove h
      have hcount : markers M.isMarker (before k s)
          = markers M.isMarker (before k s).dropLast + 1 := by
        conv_lhs => rw [hlast]
        simp [markers_cons_other, ht]
      unfold annotate
      split
      · simp
      · rw [markers_append, markers_cons_other, M.isMarker_marker]
        simp only [if_true]
        omega

theorem markers_strip {mk : τ → Bool} {k : κ} :
    markers mk (strip mk k s) ≤ markers mk s := by
  unfold strip
  split
  · have hdrop := markers_dropMarker mk (before k s)
    have hcut := markers_before_after mk k s
    rw [markers_append]
    omega
  · exact le_rfl

theorem Tagged.markers_strip {mk : τ → Bool} {k : κ}
    (h : Tagged mk k s) : markers mk (Slots.strip mk k s) + 1 ≤ markers mk s := by
  obtain ⟨hp, hm⟩ := tagged_iff.1 h
  have hdrop := markers_dropMarker mk (before k s)
  have hcut := markers_before_after mk k s
  rw [markerAbove] at hm
  rw [hm, if_pos rfl] at hdrop
  rw [Slots.strip, if_pos hp, markers_append]
  omega

theorem markers_foldl_removeStep (mk : τ → Bool) (k : κ) (s acc : List (Slot κ ν τ)) :
    markers mk (s.foldl (removeStep mk k) acc) ≤ markers mk acc + markers mk s := by
  induction s generalizing acc with
  | nil => simp
  | cons l s ih =>
      have hrest := ih (removeStep mk k acc l)
      have hdrop := markers_dropMarker mk acc
      rw [List.foldl_cons]
      cases l with
      | other t =>
          simp only [removeStep, isFor_other, Bool.false_eq_true, if_false, markers_append,
            markers_cons_other, markers_nil] at hrest ⊢
          omega
      | occ k' v =>
          by_cases hk : k' = k
          · simp only [removeStep, isFor_occ, hk, decide_true, if_true, markers_cons_occ] at hrest ⊢
            omega
          · simp only [removeStep, isFor_occ, hk, decide_false, Bool.false_eq_true, if_false,
              markers_append, markers_cons_occ, markers_nil] at hrest ⊢
            omega

theorem Tagged.markers_remove {mk : τ → Bool} {k : κ}
    (h : Tagged mk k s) : markers mk (Slots.remove mk k s) + 1 ≤ markers mk s := by
  obtain ⟨a, t, v, b, rfl, ha, ht⟩ := h
  have hassoc := List.append_cons a (.other t) (.occ k v :: b)
  have hat : present k (a ++ [Slot.other t]) = false := by simp [ha]
  have hrest := markers_foldl_removeStep mk k b a
  rw [Slots.remove, hassoc, List.foldl_append, foldl_removeStep_absent hat, List.nil_append,
    List.foldl_cons, removeStep, if_pos (by simp), dropMarker_append_marker ht]
  simp only [markers_append, markers_cons_other, markers_cons_occ, markers_nil, ht, if_true]
  omega

/-! ## A conflict loses a marker -/

theorem markers_linkItem (it : Item κ ν) (s : List (Slot κ ν τ)) :
    markers M.isMarker (linkItem M it s) ≤ markers M.isMarker s + (if it.marked then 1 else 0) := by
  unfold linkItem
  split
  · have h := markers_annotate M it.key (set it.key it.written s)
    rw [markers_set] at h
    split at h <;> omega
  · rw [markers_set]
    exact le_rfl

theorem present_set (k : κ) (v : ν) (s : List (Slot κ ν τ)) : present k (set k v s) = true := by
  unfold set
  split
  · rename_i h
    rw [present_map_setFor, h]
  · simp

theorem markerAbove_set_self {mk : τ → Bool} (k : κ) (v : ν) (s : List (Slot κ ν τ)) :
    markerAbove mk k (set k v s) = markerAbove mk k s := by
  unfold set
  split
  · exact markerAbove_map_setFor k k v s
  · rename_i h
    have habs : present k s = false := by simpa using h
    rw [markerAbove, markerAbove, before_append habs, before_of_absent habs]

/-- The edit of a key in conflict adds no marker. -/
theorem markers_linkItem_conflict {it : Item κ ν}
    (hm : it.marked = true) (hc : markerAbove M.isMarker it.key s = true) :
    markers M.isMarker (linkItem M it s) ≤ markers M.isMarker s := by
  have h := markers_annotate M it.key (set it.key it.written s)
  rw [markerAbove_set_self, hc, if_pos rfl, markers_set] at h
  rw [linkItem, if_pos hm]
  omega

/-- An edited key carries a marker. -/
theorem tagged_linkItem {it : Item κ ν} (hm : it.marked = true) :
    Tagged M.isMarker it.key (linkItem M it s) := by
  have hp := present_set it.key it.written s
  rw [linkItem, if_pos hm]
  cases h : markerAbove M.isMarker it.key (set it.key it.written s) with
  | false =>
      rw [annotate_of_not_markerAbove M h]
      obtain ⟨a, v, b, hs, ha⟩ := exists_first hp
      rw [hs, before_append ha, after_append ha]
      exact ⟨a, M.marker, v, b, rfl, ha, M.isMarker_marker⟩
  | true =>
      obtain ⟨a, t, v, b, hs, ha, ht⟩ := tagged_iff.2 ⟨hp, h⟩
      have hat : present it.key (a ++ [Slot.other t]) = false := by simp [ha]
      have hassoc := List.append_cons a (.other t) (.occ it.key v :: b)
      rw [annotate]
      split
      · exact ⟨a, t, v, b, hs, ha, ht⟩
      · rw [hs, hassoc, before_append hat, after_append hat, List.dropLast_concat]
        exact ⟨a, M.marker, v, b, rfl, ha, M.isMarker_marker⟩

theorem getLast?_linkItem_present {it : Item κ ν}
    (hp : present it.key s = true) :
    (linkItem M it s).getLast?.any (Slot.isMarker M.isMarker)
      = s.getLast?.any (Slot.isMarker M.isMarker) := by
  have hlast : ∀ (keep : τ → Bool) (t : List (Slot κ ν τ)), present it.key t = true →
      (annotate M.isMarker keep it.key M.marker t).getLast? = t.getLast? := by
    intro keep t ht
    obtain ⟨a, v, b, rfl, ha⟩ := exists_first ht
    have hend : ∀ c : List (Slot κ ν τ), (c ++ Slot.other M.marker :: .occ it.key v :: b).getLast?
        = (a ++ Slot.occ it.key v :: b).getLast? := by
      intro c
      simp [List.getLast?_append, List.getLast?_cons]
    unfold annotate
    rw [before_append ha, after_append ha]
    split
    · rfl
    · split
      · exact hend _
      · exact hend a
  unfold linkItem
  rw [set, hp, if_pos rfl]
  split
  · rw [hlast _ _ (by rw [present_map_setFor, hp]), getLast?_map_setFor_any]
  · exact getLast?_map_setFor_any ..

theorem present_linkItem_ne {k : κ} {it : Item κ ν} (hne : k ≠ it.key) (s : List (Slot κ ν τ)) :
    present k (linkItem M it s) = present k s := by
  rw [Bool.eq_iff_iff, present_iff_values, present_iff_values, values_linkItem_ne M hne]

/-- A conflict of another key stays while a key is edited; two keys that are both appended are in
    conflict with the same marker. -/
theorem conflict_linkItem {k : κ} {it : Item κ ν} (hne : k ≠ it.key)
    (hp : present k s = true ∨ present it.key s = true)
    (hc : markerAbove M.isMarker k s = true) :
    markerAbove M.isMarker k (linkItem M it s) = true := by
  cases hk : present k s with
  | true => exact (tagged_iff.1 ((tagged_iff.2 ⟨hk, hc⟩).linkItem M hne)).2
  | false =>
      have hit : present it.key s = true := by
        rcases hp with hp | hp
        · rw [hk] at hp
          cases hp
        · exact hp
      have habs : present k (linkItem M it s) = false := by
        rw [present_linkItem_ne M hne, hk]
      rw [markerAbove, before_of_absent habs, getLast?_linkItem_present M hit]
      rwa [markerAbove, before_of_absent hk] at hc

/-- The marked keys of `items`. -/
def marks (items : List (Item κ ν)) : Nat := items.countP Item.marked

omit [DecidableEq κ] in
theorem marks_cons (it : Item κ ν) (items : List (Item κ ν)) :
    marks (it :: items) = marks items + if it.marked then 1 else 0 :=
  List.countP_cons

theorem markers_linkAll (items : List (Item κ ν)) (s : List (Slot κ ν τ)) :
    markers M.isMarker (linkAll M items s) ≤ markers M.isMarker s + marks items := by
  induction items generalizing s with
  | nil => exact le_rfl
  | cons it items ih =>
      have hstep := markers_linkItem M it s
      have hrest := ih (linkItem M it s)
      rw [marks_cons]
      simp only [linkAll, List.foldl_cons] at hrest ⊢
      omega

/-- With a marked key in conflict, the edits add fewer markers than there are marked keys. -/
theorem markers_linkAll_conflict {items : List (Item κ ν)}
    (hnodup : (items.map Item.key).Nodup)
    (hpresent : ∀ it ∈ items, it.marked = false → present it.key s = true)
    (hc : ∃ it ∈ items, it.marked = true ∧ markerAbove M.isMarker it.key s = true) :
    markers M.isMarker (linkAll M items s) + 1 ≤ markers M.isMarker s + marks items := by
  induction items generalizing s with
  | nil => obtain ⟨it, hit, -⟩ := hc; cases hit
  | cons it items ih =>
      have hkey : it.key ∉ items.map Item.key := (List.nodup_cons.1 hnodup).1
      have hrest := markers_linkAll M items (linkItem M it s)
      rw [marks_cons]
      by_cases hfirst : it.marked = true ∧ markerAbove M.isMarker it.key s = true
      · -- the conflict is here: this step adds no marker
        have hstep := markers_linkItem_conflict M hfirst.1 hfirst.2
        simp only [linkAll, List.foldl_cons, hfirst.1, if_true] at hrest ⊢
        omega
      · -- the conflict is further on and survives this step
        obtain ⟨i, hi, him, hic⟩ := hc
        have hi' : i ∈ items := by
          rcases List.mem_cons.1 hi with rfl | hi'
          · exact absurd ⟨him, hic⟩ hfirst
          · exact hi'
        have hne : i.key ≠ it.key := fun h => hkey (h ▸ List.mem_map_of_mem hi')
        have hp : present i.key s = true ∨ present it.key s = true := by
          by_cases hpi : present i.key s = true
          · exact .inl hpi
          · refine .inr ?_
            cases hpit : present it.key s with
            | true => rfl
            | false =>
                rw [markerAbove, before_of_absent (by simpa using hpi)] at hic
                have hm : it.marked = true := by
                  by_contra hm
                  rw [hpresent it (List.mem_cons_self ..) (by simpa using hm)] at hpit
                  cases hpit
                exact absurd ⟨hm, by rw [markerAbove, before_of_absent hpit, hic]⟩ hfirst
        have hpresent' : ∀ j ∈ items, j.marked = false →
            present j.key (linkItem M it s) = true := by
          intro j hj hjm
          have hjp := hpresent j (List.mem_cons_of_mem _ hj) hjm
          have hjne : j.key ≠ it.key := fun h => hkey (h ▸ List.mem_map_of_mem hj)
          rwa [present_linkItem_ne M hjne]
        have hih := ih (List.nodup_cons.1 hnodup).2 hpresent'
          ⟨i, hi', him, conflict_linkItem M hne hp hic⟩
        have hstep := markers_linkItem M it s
        simp only [linkAll, List.foldl_cons] at hih ⊢
        omega

/-- A marker above a key survives the edits of the other keys. -/
theorem Tagged.linkAll {items : List (Item κ ν)} {k : κ}
    (h : Tagged M.isMarker k s) (hk : ∀ it ∈ items, it.key = k → it.marked = false) :
    Tagged M.isMarker k (linkAll M items s) := by
  induction items generalizing s with
  | nil => exact h
  | cons it items ih =>
      have hrest : ∀ i ∈ items, i.key = k → i.marked = false :=
        fun i hi => hk i (List.mem_cons_of_mem _ hi)
      refine ih ?_ hrest
      by_cases hne : k = it.key
      · show Tagged M.isMarker k (Slots.linkItem M it s)
        rw [Slots.linkItem, hk it (List.mem_cons_self ..) hne.symm]
        exact h.set it.key it.written
      · exact h.linkItem M hne

/-- After the edits every marked key carries a marker. -/
theorem tagged_linkAll {items : List (Item κ ν)} (hnodup : (items.map Item.key).Nodup)
    {it : Item κ ν} (hit : it ∈ items) (hm : it.marked = true) (s : List (Slot κ ν τ)) :
    Tagged M.isMarker it.key (linkAll M items s) := by
  induction items generalizing s with
  | nil => cases hit
  | cons i items ih =>
      obtain ⟨hkey, hnodup'⟩ := List.nodup_cons.1 hnodup
      rcases List.mem_cons.1 hit with rfl | hit
      · exact (tagged_linkItem M hm).linkAll M fun j hj hjk =>
          absurd (hjk ▸ List.mem_map_of_mem hj) hkey
      · exact ih hnodup' hit (Slots.linkItem M i s)

/-- Undoing an edit strips a marker above its key. -/
theorem markers_restoreItem (it : Item κ ν) (s : List (Slot κ ν τ)) :
    markers M.isMarker (restoreItem M it s) ≤ markers M.isMarker s := by
  unfold restoreItem
  split
  · simpa [remove] using markers_foldl_removeStep M.isMarker it.key s []
  · refine markers_strip.trans (le_of_eq ?_)
    split <;> simp

theorem Tagged.markers_restoreItem {it : Item κ ν}
    (h : Tagged M.isMarker it.key s) :
    markers M.isMarker (Slots.restoreItem M it s) + 1 ≤ markers M.isMarker s := by
  unfold Slots.restoreItem
  split
  · exact h.markers_remove
  · split
    · simpa using (h.assignAll it.key it.all).markers_strip
    · rename_i p _ _
      simpa using (h.set it.key p).markers_strip

/-- Undoing the edits strips a marker for every marked key, and one more for an unmarked key that
    carries one. -/
theorem markers_restoreAll {items : List (Item κ ν)}
    (hnodup : (items.map Item.key).Nodup)
    (htagged : ∀ it ∈ items, it.marked = true → Tagged M.isMarker it.key s) :
    markers M.isMarker (restoreAll M items s) + marks items ≤ markers M.isMarker s ∧
      ((∃ it ∈ items, it.marked = false ∧ Tagged M.isMarker it.key s) →
        markers M.isMarker (restoreAll M items s) + marks items + 1 ≤ markers M.isMarker s) := by
  induction items generalizing s with
  | nil => simp [restoreAll, marks]
  | cons it items ih =>
      obtain ⟨hkey, hnodup'⟩ := List.nodup_cons.1 hnodup
      have hne : ∀ i ∈ items, i.key ≠ it.key := fun i hi h => hkey (h ▸ List.mem_map_of_mem hi)
      obtain ⟨hle, hlt⟩ := ih (s := restoreItem M it s) hnodup' fun i hi him =>
        (htagged i (List.mem_cons_of_mem _ hi) him).restoreItem M (hne i hi)
      have hstep := markers_restoreItem M it s
      have hstep' : Tagged M.isMarker it.key s → _ := Tagged.markers_restoreItem M
      rw [marks_cons]
      simp only [restoreAll, List.foldl_cons] at hle hlt ⊢
      constructor
      · split
        · rename_i hm
          have := hstep' (htagged it (List.mem_cons_self ..) hm)
          omega
        · omega
      · rintro ⟨i, hi, him, hit⟩
        rcases List.mem_cons.1 hi with rfl | hi
        · have := hstep' hit
          simp only [him, Bool.false_eq_true, if_false]
          omega
        · have hlt' := hlt ⟨i, hi, him, hit.restoreItem M (hne i hi)⟩
          split
          · rename_i hm
            have := hstep' (htagged it (List.mem_cons_self ..) hm)
            omega
          · omega

/-- A key in conflict costs a marker: after edits and undo there are fewer than before. -/
theorem markers_lost {items : List (Item κ ν)}
    (hnodup : (items.map Item.key).Nodup)
    (hpresent : ∀ it ∈ items, it.marked = false → present it.key s = true)
    (hc : ∃ it ∈ items, markerAbove M.isMarker it.key s = true) :
    markers M.isMarker (restoreAll M items (linkAll M items s)) < markers M.isMarker s := by
  obtain ⟨it, hit, hc⟩ := hc
  obtain ⟨hle, hlt⟩ := markers_restoreAll M (s := linkAll M items s) hnodup
    fun i hi him => tagged_linkAll M hnodup hi him s
  cases hm : it.marked with
  | true =>
      have hlink := markers_linkAll_conflict M hnodup hpresent ⟨it, hit, hm, hc⟩
      omega
  | false =>
      have hlink := markers_linkAll M items s
      have htagged : Tagged M.isMarker it.key (linkAll M items s) := by
        refine (tagged_iff.2 ⟨hpresent it hit hm, hc⟩).linkAll M fun i hi hik => ?_
        rw [List.inj_on_of_nodup_map hnodup hi hit hik, hm]
      have := hlt ⟨it, hit, hm, htagged⟩
      omega

end Slots
