import Mathlib

set_option autoImplicit false

/-! # Checked writes, one after the other

A step checks and then writes, and says what it wrote. A run without a transaction stops at the first step that fails
and keeps what the steps before it wrote. -/

namespace Steps

variable {σ ε τ : Type}

/-- What a step leaves and what it says of it; a step that fails has written nothing. -/
abbrev Step (σ ε τ : Type) := σ → Except ε (σ × List τ)

def run : List (Step σ ε τ) → σ → σ × Except ε (List τ)
  | [], s => (s, .ok [])
  | step :: rest, s =>
      match step s with
      | .error e => (s, .error e)
      | .ok (t, did) => ((run rest t).1, (run rest t).2.map (did ++ ·))

/-- A step that only writes. -/
def write (f : σ → σ) (did : List τ) : Step σ ε τ := fun s => .ok (f s, did)

variable {step : Step σ ε τ} {steps : List (Step σ ε τ)} {f : σ → σ} {did : List τ} {s t : σ}

@[simp] theorem run_nil : run ([] : List (Step σ ε τ)) s = (s, .ok []) := rfl

theorem run_error {e : ε} (h : step s = .error e) : run (step :: steps) s = (s, .error e) := by rw [run, h]

theorem run_ok (h : step s = .ok (t, did)) :
    run (step :: steps) s = ((run steps t).1, (run steps t).2.map (did ++ ·)) := by rw [run, h]

@[simp] theorem run_write : run (write f did :: steps) s = ((run steps (f s)).1, (run steps (f s)).2.map (did ++ ·)) :=
  run_ok rfl

/-- Writes are all made, and the steps after them follow. -/
theorem run_writes_append (writes : List ((σ → σ) × List τ)) (s : σ) :
    run ((writes.map fun w => (write w.1 w.2 : Step σ ε τ)) ++ steps) s
      = ((run steps (writes.foldl (fun s w => w.1 s) s)).1,
         (run steps (writes.foldl (fun s w => w.1 s) s)).2.map (writes.flatMap Prod.snd ++ ·)) := by
  induction writes generalizing s with
  | nil =>
      simp only [List.map_nil, List.nil_append, List.foldl_nil, List.flatMap_nil]
      rcases h : run steps s with ⟨t, e | did⟩ <;> rfl
  | cons w writes ih =>
      rw [List.map_cons, List.cons_append, run_write, ih, List.foldl_cons, List.flatMap_cons]
      generalize run steps (writes.foldl (fun s w => w.1 s) (w.1 s)) = r
      obtain ⟨t, e | did⟩ := r
      · rfl
      · simp [Except.map, List.append_assoc]

theorem run_writes (writes : List ((σ → σ) × List τ)) (s : σ) :
    run (writes.map fun w => (write w.1 w.2 : Step σ ε τ)) s
      = (writes.foldl (fun s w => w.1 s) s, .ok (writes.flatMap Prod.snd)) := by
  have h := @run_writes_append σ ε τ [] writes s
  rw [List.append_nil] at h
  rw [h]
  simp [Except.map]

/-- What every write keeps, the writes keep. -/
theorem foldl_writes {β : Type} (view : σ → β) {writes : List ((σ → σ) × List τ)}
    (h : ∀ w ∈ writes, ∀ s, view (w.1 s) = view s) (s : σ) : view (writes.foldl (fun s w => w.1 s) s) = view s := by
  induction writes generalizing s with
  | nil => rfl
  | cons w writes ih =>
      rw [List.foldl_cons, ih fun w' hw' => h w' (List.mem_cons_of_mem _ hw')]
      exact h w List.mem_cons_self s

end Steps
