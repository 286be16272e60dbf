import Mathlib

set_option autoImplicit false

/-! # Braces and strings of a text

A text in which strings stand between double quotes, with a backslash before what they escape, and braces match
outside of strings. A text that begins inside the braces or inside a string of such a text is not one. -/

namespace Braces

def quote : UInt8 := 0x22

def backslash : UInt8 := 0x5c

def opening : UInt8 := 0x7b

def closing : UInt8 := 0x7d

inductive Mode where
  | outside
  | inside
  /-- Inside a string, behind a backslash. -/
  | escaped
  deriving DecidableEq, Repr

/-- The mode and the number of open braces behind a byte. -/
def step : Mode × Nat → UInt8 → Option (Mode × Nat)
  | (.escaped, depth), _ => some (.inside, depth)
  | (.inside, depth), b =>
      some (if b = backslash then .escaped else if b = quote then .outside else .inside, depth)
  | (.outside, depth), b =>
      if b = quote then some (.inside, depth)
      else if b = opening then some (.outside, depth + 1)
      else if b = closing then if depth = 0 then none else some (.outside, depth - 1)
      else if b = backslash then none
      else some (.outside, depth)

def scan : Mode × Nat → List UInt8 → Option (Mode × Nat)
  | s, [] => some s
  | s, b :: t => (step s b).bind fun s' => scan s' t

def Balanced (t : List UInt8) : Prop := scan (.outside, 0) t = some (.outside, 0)

instance (t : List UInt8) : Decidable (Balanced t) := inferInstanceAs (Decidable (_ = _))

/-- A byte with no meaning of its own, outside of strings as inside. -/
def IsPlain (b : UInt8) : Prop := b ≠ quote ∧ b ≠ backslash ∧ b ≠ opening ∧ b ≠ closing

instance (b : UInt8) : Decidable (IsPlain b) := inferInstanceAs (Decidable (_ ∧ _))

theorem scan_append (s : Mode × Nat) (t u : List UInt8) :
    scan s (t ++ u) = (scan s t).bind fun s' => scan s' u := by
  induction t generalizing s with
  | nil => simp [scan]
  | cons b t ih => simp [scan, ih, Option.bind_assoc]

theorem scan_of_plain {mode : Mode} (hmode : mode ≠ .escaped) (depth : Nat) {t : List UInt8}
    (h : ∀ b ∈ t, IsPlain b) : scan (mode, depth) t = some (mode, depth) := by
  induction t with
  | nil => rfl
  | cons b t ih =>
      obtain ⟨hquote, hback, hopen, hclose⟩ := h b List.mem_cons_self
      have hstep : step (mode, depth) b = some (mode, depth) := by
        cases mode with
        | outside => simp [step, hquote, hback, hopen, hclose]
        | inside => simp [step, hquote, hback]
        | escaped => exact absurd rfl hmode
      rw [scan, hstep]
      exact ih fun c hc => h c (List.mem_cons_of_mem b hc)

/-- Only a brace that closes none and a backslash have no place, and they only outside of strings. -/
theorem step_eq_none {mode : Mode} {depth : Nat} {b : UInt8} (h : step (mode, depth) b = none) :
    mode = .outside ∧ (b = closing ∧ depth = 0 ∨ b = backslash) := by
  cases mode with
  | escaped => cases h
  | inside => cases h
  | outside =>
      simp only [step] at h
      split_ifs at h with hquote hopen hclose hzero hback
      · exact ⟨rfl, .inl ⟨hclose, hzero⟩⟩
      · exact ⟨rfl, .inr hback⟩

/-- Open braces around a text that closes none of them stay open. -/
theorem step_add {mode mode' : Mode} {depth depth' : Nat} {b : UInt8}
    (h : step (mode, depth) b = some (mode', depth')) (k : Nat) :
    step (mode, depth + k) b = some (mode', depth' + k) := by
  cases mode with
  | escaped => simp_all [step]
  | inside => simp_all [step]
  | outside =>
      simp only [step] at h ⊢
      split_ifs at h with hquote hopen hclose hzero hback
      · simp_all
      · have hsum : depth + k + 1 = depth + 1 + k := Nat.add_right_comm depth k 1
        simp_all
      · have hsum : depth + k ≠ 0 := by omega
        have hless : depth + k - 1 = depth - 1 + k := by omega
        simp_all
      · simp_all

theorem scan_add {mode mode' : Mode} {depth depth' : Nat} {t : List UInt8}
    (h : scan (mode, depth) t = some (mode', depth')) (k : Nat) :
    scan (mode, depth + k) t = some (mode', depth' + k) := by
  induction t generalizing mode depth with
  | nil =>
      simp only [scan, Option.some.injEq, Prod.mk.injEq] at h ⊢
      obtain ⟨rfl, rfl⟩ := h
      exact ⟨rfl, rfl⟩
  | cons b t ih =>
      obtain ⟨⟨mid, d⟩, hstep, hrest⟩ := Option.bind_eq_some_iff.1 h
      rw [scan, step_add hstep k]
      exact ih hrest

theorem Balanced.scan {t : List UInt8} (h : Balanced t) (depth : Nat) :
    scan (.outside, depth) t = some (.outside, depth) := by
  simpa using scan_add h depth

theorem Balanced.append {t u : List UInt8} (ht : Balanced t) (hu : Balanced u) : Balanced (t ++ u) := by
  unfold Balanced at ht ⊢
  rw [scan_append, ht]
  exact hu

/-- A text read from inside a string and from outside of one does not end outside both times. -/
theorem scan_opposite {t : List UInt8} {depth depth' depth₁ depth₁' : Nat}
    (hin : scan (.inside, depth) t = some (.outside, depth'))
    (hout : scan (.outside, depth₁) t = some (.outside, depth₁')) : False := by
  -- Each quote swaps the two readings, and a backslash ends the one that is outside.
  induction t generalizing depth depth' depth₁ depth₁' with
  | nil => simp [scan] at hin
  | cons b t ih =>
      simp only [scan, step] at hin hout
      by_cases hquote : b = quote
      · have hback : b ≠ backslash := by rw [hquote]; decide
        rw [if_neg hback, if_pos hquote] at hin
        rw [if_pos hquote] at hout
        exact ih hout hin
      · rw [if_neg hquote] at hin hout
        by_cases hback : b = backslash
        · subst hback
          simp [backslash, opening, closing] at hout
        · rw [if_neg hback] at hin hout
          split_ifs at hout with hopen hclose hzero
          · exact ih hin hout
          · simp at hout
          · exact ih hin hout
          · exact ih hin hout

/-- The rest of a balanced text behind a place where a brace is open is not balanced. -/
theorem not_balanced_rest {before rest : List UInt8} (h : Balanced (before ++ rest)) {mode : Mode} {depth : Nat}
    (hbefore : scan (.outside, 0) before = some (mode, depth + 1)) : ¬Balanced rest := by
  intro hrest
  unfold Balanced at h
  rw [scan_append, hbefore, Option.bind_some] at h
  cases mode with
  | outside =>
      rw [hrest.scan] at h
      simp at h
  | inside => exact scan_opposite h hrest
  | escaped =>
      cases rest with
      | nil => simp [scan] at h
      | cons b rest =>
          -- What is escaped is read as text here: a quote brings the two readings together.
          unfold Balanced at hrest
          simp only [scan, step, Option.bind_some] at h hrest
          split_ifs at hrest
          · have := scan_add hrest (depth + 1)
            rw [Nat.zero_add, h] at this
            simp at this
          · exact scan_opposite h hrest
          · simp at hrest
          · simp at hrest
          · exact scan_opposite h hrest

/-- The braces of a balanced text's beginning that are open around it stay open. -/
theorem scan_begin {before rest : List UInt8} (h : Balanced (before ++ rest)) :
    ∃ mode depth, scan (.outside, 1) before = some (mode, depth + 1) := by
  unfold Balanced at h
  rw [scan_append] at h
  obtain ⟨⟨mode, depth⟩, hbefore, -⟩ := Option.bind_eq_some_iff.1 h
  exact ⟨mode, depth, by simpa [Nat.add_comm] using scan_add hbefore 1⟩

end Braces
