import Mathlib

set_option autoImplicit false

/-! # Assignments annotated by marker lines

A configuration text is a list of slots: an occurrence of a key with its value, or another line that
is kept as it is. An edit owns a key by setting all its occurrences and placing a *marker* line
directly above the first one; undoing the edit restores the values and strips that marker again.

The edits are defined here with what each does to the values (`values_set_self`, `values_remove_self`
and so on); markers never change a value. -/

namespace Slots

inductive Slot (κ ν τ : Type) where
  | occ (k : κ) (v : ν)
  | other (t : τ)
  deriving DecidableEq

variable {κ ν τ : Type}

/-! ## Reading -/

/-- A line that the predicate `mk` takes for a marker. -/
def Slot.isMarker (mk : τ → Bool) : Slot κ ν τ → Bool
  | .occ _ _ => false
  | .other t => mk t

@[simp] theorem isMarker_occ (mk : τ → Bool) (k : κ) (v : ν) :
    (Slot.occ k v : Slot κ ν τ).isMarker mk = false := rfl

@[simp] theorem isMarker_other (mk : τ → Bool) (t : τ) :
    (Slot.other t : Slot κ ν τ).isMarker mk = mk t := rfl

def Slot.occ? : Slot κ ν τ → Option (κ × ν)
  | .occ k v => some (k, v)
  | .other _ => none

def Slot.other? : Slot κ ν τ → Option τ
  | .occ _ _ => none
  | .other t => some t

/-- All occurrences, in order. -/
def occs (s : List (Slot κ ν τ)) : List (κ × ν) := s.filterMap Slot.occ?

@[simp] theorem occs_nil : occs ([] : List (Slot κ ν τ)) = [] := rfl

@[simp] theorem occs_append (a b : List (Slot κ ν τ)) : occs (a ++ b) = occs a ++ occs b := by
  simp [occs]

@[simp] theorem occs_cons_occ (k : κ) (v : ν) (s : List (Slot κ ν τ)) :
    occs (.occ k v :: s) = (k, v) :: occs s := rfl

@[simp] theorem occs_cons_other (t : τ) (s : List (Slot κ ν τ)) :
    occs (.other t :: s) = occs s := rfl

/-- All other lines, in order. -/
def others (s : List (Slot κ ν τ)) : List τ := s.filterMap Slot.other?

@[simp] theorem others_cons_occ (k : κ) (v : ν) (s : List (Slot κ ν τ)) :
    others (.occ k v :: s) = others s := rfl

@[simp] theorem others_cons_other (t : τ) (s : List (Slot κ ν τ)) :
    others (.other t :: s) = t :: others s := rfl

/-- The number of markers. -/
def markers (mk : τ → Bool) (s : List (Slot κ ν τ)) : Nat := s.countP (Slot.isMarker mk)

@[simp] theorem markers_nil (mk : τ → Bool) : markers mk ([] : List (Slot κ ν τ)) = 0 := rfl

@[simp] theorem markers_append (mk : τ → Bool) (a b : List (Slot κ ν τ)) :
    markers mk (a ++ b) = markers mk a + markers mk b :=
  List.countP_append

@[simp] theorem markers_cons_occ (mk : τ → Bool) (k : κ) (v : ν) (s : List (Slot κ ν τ)) :
    markers mk (.occ k v :: s) = markers mk s :=
  List.countP_cons_of_neg (by simp)

theorem markers_cons_other (mk : τ → Bool) (t : τ) (s : List (Slot κ ν τ)) :
    markers mk (.other t :: s) = markers mk s + if mk t then 1 else 0 :=
  List.countP_cons

/-- The markers are found among the other lines. -/
theorem markers_eq_countP_others (mk : τ → Bool) (s : List (Slot κ ν τ)) :
    markers mk s = (others s).countP mk := by
  induction s with
  | nil => rfl
  | cons l s ih =>
      cases l with
      | occ k v =>
          rw [markers_cons_occ, ih]
          rfl
      | other t =>
          rw [markers_cons_other, ih]
          exact (List.countP_cons (p := mk)).symm

/-- Drop a marker that ends the list. -/
def dropMarker (mk : τ → Bool) (s : List (Slot κ ν τ)) : List (Slot κ ν τ) :=
  match s.getLast? with
  | some l => if l.isMarker mk then s.dropLast else s
  | none => s

theorem dropMarker_of_last {mk : τ → Bool} {s : List (Slot κ ν τ)}
    (h : s.getLast?.any (Slot.isMarker mk) = false) : dropMarker mk s = s := by
  unfold dropMarker
  cases hl : s.getLast? with
  | none => rfl
  | some l =>
      rw [hl, Option.any_some] at h
      simp [h]

theorem dropMarker_append_marker {mk : τ → Bool} {m : τ} (hm : mk m = true)
    (s : List (Slot κ ν τ)) : dropMarker mk (s ++ [Slot.other m]) = s := by
  simp [dropMarker, hm]

theorem occs_dropMarker (mk : τ → Bool) (s : List (Slot κ ν τ)) :
    occs (dropMarker mk s) = occs s := by
  induction s using List.reverseRecOn with
  | nil => rfl
  | append_singleton s l _ =>
      cases l with
      | occ k v => simp [dropMarker]
      | other t =>
          simp only [dropMarker, List.getLast?_append, List.getLast?_singleton, Option.some_or]
          split <;> simp

variable [DecidableEq κ]

/-- An occurrence of `k`. -/
def Slot.isFor (k : κ) : Slot κ ν τ → Bool
  | .occ k' _ => k' = k
  | .other _ => false

def present (k : κ) (s : List (Slot κ ν τ)) : Bool := s.any (Slot.isFor k)

/-- The values of the occurrences of `k`, in order. -/
def values (k : κ) (s : List (Slot κ ν τ)) : List ν :=
  ((occs s).filter fun o => o.1 = k).map Prod.snd

/-- The slots before the first occurrence of `k`. -/
def before (k : κ) (s : List (Slot κ ν τ)) : List (Slot κ ν τ) :=
  s.takeWhile fun l => !l.isFor k

/-- The slots from the first occurrence of `k` on. -/
def after (k : κ) (s : List (Slot κ ν τ)) : List (Slot κ ν τ) :=
  s.dropWhile fun l => !l.isFor k

/-- A marker stands directly above the first occurrence of `k`, or ends the text when `k` does not
    occur. -/
def markerAbove (mk : τ → Bool) (k : κ) (s : List (Slot κ ν τ)) : Bool :=
  (before k s).getLast?.any (Slot.isMarker mk)

/-! ## Edits -/

def Slot.setFor (k : κ) (v : ν) : Slot κ ν τ → Slot κ ν τ
  | .occ k' w => if k' = k then .occ k' v else .occ k' w
  | .other t => .other t

/-- Set every occurrence of `k`, or append one. -/
def set (k : κ) (v : ν) (s : List (Slot κ ν τ)) : List (Slot κ ν τ) :=
  if present k s then s.map (Slot.setFor k v) else s ++ [Slot.occ k v]

/-- Give the occurrences of `k` the values in order, and `last` to those beyond. -/
def assign (k : κ) (last : ν) : List ν → List (Slot κ ν τ) → List (Slot κ ν τ)
  | _, [] => []
  | vs, l :: ls =>
      if l.isFor k then l.setFor k (vs.headD last) :: assign k last vs.tail ls
      else l :: assign k last vs ls

/-- `assign`, the last value serving for the occurrences beyond. -/
def assignAll (k : κ) (vs : List ν) (s : List (Slot κ ν τ)) : List (Slot κ ν τ) :=
  match vs.getLast? with
  | none => s
  | some last => assign k last vs s

/-- Place the marker `m` above the first occurrence of `k`: a line that `keep` accepts stays, another
    marker is replaced. -/
def annotate (mk keep : τ → Bool) (k : κ) (m : τ) (s : List (Slot κ ν τ)) : List (Slot κ ν τ) :=
  if markerAbove keep k s then s
  else if markerAbove mk k s then (before k s).dropLast ++ Slot.other m :: after k s
  else before k s ++ Slot.other m :: after k s

/-- Remove the marker above the first occurrence of `k`. -/
def strip (mk : τ → Bool) (k : κ) (s : List (Slot κ ν τ)) : List (Slot κ ν τ) :=
  if present k s then dropMarker mk (before k s) ++ after k s else s

/-- One step of `remove`: an occurrence of `k` goes, together with a marker directly above it. -/
def removeStep (mk : τ → Bool) (k : κ) (acc : List (Slot κ ν τ)) (l : Slot κ ν τ) :
    List (Slot κ ν τ) :=
  if l.isFor k then dropMarker mk acc else acc ++ [l]

/-- Remove every occurrence of `k` and any marker directly above one. -/
def remove (mk : τ → Bool) (k : κ) (s : List (Slot κ ν τ)) : List (Slot κ ν τ) :=
  s.foldl (removeStep mk k) []

/-! ## Splitting at the first occurrence -/

@[simp] theorem isFor_occ (k k' : κ) (v : ν) :
    (Slot.occ k' v : Slot κ ν τ).isFor k = decide (k' = k) := rfl

@[simp] theorem isFor_other (k : κ) (t : τ) : (Slot.other t : Slot κ ν τ).isFor k = false := rfl

@[simp] theorem present_nil (k : κ) : present k ([] : List (Slot κ ν τ)) = false := rfl

@[simp] theorem present_cons (k : κ) (l : Slot κ ν τ) (s : List (Slot κ ν τ)) :
    present k (l :: s) = (l.isFor k || present k s) := by
  simp [present]

@[simp] theorem present_append (k : κ) (a b : List (Slot κ ν τ)) :
    present k (a ++ b) = (present k a || present k b) := by
  simp [present]

theorem before_append {k : κ} {v : ν} {a : List (Slot κ ν τ)} (ha : present k a = false)
    (b : List (Slot κ ν τ)) : before k (a ++ Slot.occ k v :: b) = a := by
  induction a with
  | nil => simp [before]
  | cons l a ih =>
      simp only [present_cons, Bool.or_eq_false_iff] at ha
      have := ih ha.2
      simp only [before] at this ⊢
      simp [ha.1, this]

theorem after_append {k : κ} {v : ν} {a : List (Slot κ ν τ)} (ha : present k a = false)
    (b : List (Slot κ ν τ)) : after k (a ++ Slot.occ k v :: b) = .occ k v :: b := by
  induction a with
  | nil => simp [after]
  | cons l a ih =>
      simp only [present_cons, Bool.or_eq_false_iff] at ha
      have := ih ha.2
      simp only [after] at this ⊢
      simp [ha.1, this]

theorem before_of_absent {k : κ} {s : List (Slot κ ν τ)} (h : present k s = false) :
    before k s = s := by
  simp only [present, List.any_eq_false] at h
  rw [before, List.takeWhile_eq_self_iff]
  intro l hl
  simpa using h l hl

/-- A key that occurs has a first occurrence. -/
theorem exists_first {k : κ} {s : List (Slot κ ν τ)} (h : present k s = true) :
    ∃ a v b, s = a ++ Slot.occ k v :: b ∧ present k a = false := by
  induction s with
  | nil => simp at h
  | cons l s ih =>
      by_cases hl : l.isFor k = true
      · cases l with
        | other t => simp at hl
        | occ k' v =>
            obtain rfl : k' = k := by simpa using hl
            exact ⟨[], v, s, rfl, rfl⟩
      · simp only [present_cons, Bool.or_eq_true] at h
        obtain ⟨a, v, b, rfl, ha⟩ := ih (h.resolve_left hl)
        exact ⟨l :: a, v, b, rfl, by simpa [ha] using hl⟩

@[simp] theorem before_append_after (k : κ) (s : List (Slot κ ν τ)) :
    before k s ++ after k s = s :=
  List.takeWhile_append_dropWhile

/-! ## Values are untouched by markers -/

theorem occs_strip (mk : τ → Bool) (k : κ) (s : List (Slot κ ν τ)) :
    occs (strip mk k s) = occs s := by
  unfold strip
  split
  · rw [occs_append, occs_dropMarker, ← occs_append, before_append_after]
  · rfl

/-- A marker above `k` is the last line before it. -/
theorem before_of_markerAbove {mk : τ → Bool} {k : κ} {s : List (Slot κ ν τ)}
    (h : markerAbove mk k s = true) :
    ∃ t, before k s = (before k s).dropLast ++ [Slot.other t] ∧ mk t = true := by
  rw [markerAbove] at h
  cases hl : (before k s).getLast? with
  | none => simp [hl] at h
  | some l =>
      cases l with
      | occ k' v => simp [hl] at h
      | other t =>
          exact ⟨t, (List.dropLast_append_getLast? _ hl).symm, by simpa [hl] using h⟩

theorem occs_annotate (mk keep : τ → Bool) (k : κ) (m : τ) (s : List (Slot κ ν τ)) :
    occs (annotate mk keep k m s) = occs s := by
  have hplain : occs (before k s ++ Slot.other m :: after k s) = occs s := by
    rw [occs_append, occs_cons_other, ← occs_append, before_append_after]
  unfold annotate
  split
  · rfl
  · split
    · rename_i h
      obtain ⟨t, hlast, -⟩ := before_of_markerAbove h
      rw [← hplain]
      conv_rhs => rw [hlast]
      simp
    · exact hplain

theorem occs_foldl_removeStep (mk : τ → Bool) (k : κ) (s acc : List (Slot κ ν τ)) :
    occs (s.foldl (removeStep mk k) acc) = occs acc ++ (occs s).filter fun o => o.1 ≠ k := by
  induction s generalizing acc with
  | nil => simp
  | cons l s ih =>
      rw [List.foldl_cons, ih]
      cases l with
      | other t => simp [removeStep]
      | occ k' v =>
          by_cases hk : k' = k
          · simp [removeStep, hk, occs_dropMarker]
          · simp [removeStep, hk]

theorem occs_remove (mk : τ → Bool) (k : κ) (s : List (Slot κ ν τ)) :
    occs (remove mk k s) = (occs s).filter fun o => o.1 ≠ k := by
  rw [remove, occs_foldl_removeStep, occs_nil, List.nil_append]

theorem occs_map_setFor (k : κ) (v : ν) (s : List (Slot κ ν τ)) :
    occs (s.map (Slot.setFor k v))
      = (occs s).map fun o => if o.1 = k then (o.1, v) else o := by
  induction s with
  | nil => rfl
  | cons l s ih =>
      cases l with
      | other t => simpa [Slot.setFor] using ih
      | occ k' w =>
          simp only [List.map_cons, Slot.setFor, occs_cons_occ]
          split <;> simp_all

@[simp] theorem values_nil (k : κ) : values k ([] : List (Slot κ ν τ)) = [] := rfl

@[simp] theorem values_append (k : κ) (a b : List (Slot κ ν τ)) :
    values k (a ++ b) = values k a ++ values k b := by
  simp [values]

@[simp] theorem values_cons_other (k : κ) (t : τ) (s : List (Slot κ ν τ)) :
    values k (.other t :: s) = values k s := rfl

theorem values_cons_occ (k k' : κ) (v : ν) (s : List (Slot κ ν τ)) :
    values k (.occ k' v :: s) = if k' = k then v :: values k s else values k s := by
  by_cases h : k' = k <;> simp [values, h]

theorem values_eq_of_occs {s s' : List (Slot κ ν τ)} (h : occs s = occs s') (k : κ) :
    values k s = values k s' := by
  rw [values, values, h]

theorem present_iff_values {k : κ} {s : List (Slot κ ν τ)} :
    present k s = true ↔ values k s ≠ [] := by
  induction s with
  | nil => simp
  | cons l s ih =>
      cases l with
      | other t => simpa using ih
      | occ k' v => by_cases hk : k' = k <;> simp [values_cons_occ, hk, ih]

theorem values_of_absent {k : κ} {s : List (Slot κ ν τ)} (h : present k s = false) :
    values k s = [] := by
  by_contra hne
  rw [present_iff_values.2 hne] at h
  cases h

theorem present_eq_of_occs {s s' : List (Slot κ ν τ)} (h : occs s = occs s') (k : κ) :
    present k s = present k s' := by
  rw [Bool.eq_iff_iff, present_iff_values, present_iff_values, values_eq_of_occs h]

theorem values_map_setFor_self (k : κ) (v : ν) (s : List (Slot κ ν τ)) :
    values k (s.map (Slot.setFor k v)) = (values k s).map fun _ => v := by
  induction s with
  | nil => rfl
  | cons l s ih =>
      cases l with
      | other t => simpa [Slot.setFor] using ih
      | occ k' w => by_cases hk : k' = k <;> simp [Slot.setFor, values_cons_occ, hk, ih]

theorem values_map_setFor_ne {k k' : κ} (h : k' ≠ k) (v : ν) (s : List (Slot κ ν τ)) :
    values k' (s.map (Slot.setFor k v)) = values k' s := by
  induction s with
  | nil => rfl
  | cons l s ih =>
      cases l with
      | other t => simpa [Slot.setFor] using ih
      | occ k'' w =>
          by_cases hk : k'' = k
          · simp [Slot.setFor, values_cons_occ, hk, Ne.symm h, ih]
          · simp [Slot.setFor, values_cons_occ, hk, ih]

theorem values_set_self (k : κ) (v : ν) (s : List (Slot κ ν τ)) :
    values k (set k v s)
      = if present k s then (values k s).map fun _ => v else [v] := by
  unfold set
  split
  · exact values_map_setFor_self k v s
  · rename_i h
    simp [values_cons_occ, values_of_absent (by simpa using h)]

theorem values_set_ne {k k' : κ} (h : k' ≠ k) (v : ν) (s : List (Slot κ ν τ)) :
    values k' (set k v s) = values k' s := by
  unfold set
  split
  · exact values_map_setFor_ne h v s
  · simp [values_cons_occ, Ne.symm h]

theorem values_remove_self (mk : τ → Bool) (k : κ) (s : List (Slot κ ν τ)) :
    values k (remove mk k s) = [] := by
  rw [values, occs_remove]
  simp

theorem values_remove_ne (mk : τ → Bool) {k k' : κ} (h : k' ≠ k) (s : List (Slot κ ν τ)) :
    values k' (remove mk k s) = values k' s := by
  rw [values, values, occs_remove, List.filter_filter]
  congr 1
  apply List.filter_congr
  intro o _
  by_cases ho : o.1 = k' <;> simp [ho, h]

theorem values_assign_ne {k k' : κ} (h : k' ≠ k) (last : ν) (vs : List ν)
    (s : List (Slot κ ν τ)) : values k' (assign k last vs s) = values k' s := by
  induction s generalizing vs with
  | nil => rfl
  | cons l s ih =>
      cases l with
      | other t => simpa [assign] using ih vs
      | occ k'' w =>
          by_cases hk : k'' = k
          · simp [assign, Slot.setFor, values_cons_occ, hk, Ne.symm h, ih]
          · simp [assign, values_cons_occ, hk, ih]

/-- The occurrences get the values in order, and `last` beyond them. -/
theorem values_assign_self (k : κ) (last : ν) (vs : List ν) (s : List (Slot κ ν τ)) :
    values k (assign k last vs s)
      = (List.range (values k s).length).map fun i => (vs[i]?).getD last := by
  induction s generalizing vs with
  | nil => rfl
  | cons l s ih =>
      cases l with
      | other t => simpa [assign] using ih vs
      | occ k' w =>
          by_cases hk : k' = k
          · have htail : ∀ i : Nat, vs.tail[i]? = vs[i + 1]? := by
              intro i
              cases vs <;> rfl
            have hhead : vs.head?.getD last = (vs[0]?).getD last := by
              cases vs <;> rfl
            simp [assign, Slot.setFor, values_cons_occ, hk, ih, htail, hhead,
              List.range_succ_eq_map, Function.comp_def]
          · simp [assign, values_cons_occ, hk, ih]

end Slots
