import Mathlib

set_option autoImplicit false

/-! # Reading a buffer at a position

`At buf pos rest` says that `rest` is what a reader at `pos` still has before it. A range that is asked
for and lies in the buffer is a piece of `rest` (`At.getRange`), and a reader that has passed a piece
stands behind it (`At.advance`). Numbers are big-endian. -/

namespace Buffer

variable {α : Type}

/-- `buf.get(from..to)`. -/
def getRange (buf : List α) (start stop : Nat) : Option (List α) :=
  if start ≤ stop ∧ stop ≤ buf.length then some ((buf.take stop).drop start) else none

/-- The reader stands at `pos`, and `rest` is before it. -/
structure At (buf : List α) (pos : Nat) (rest : List α) : Prop where
  inside : pos ≤ buf.length
  rest : buf.drop pos = rest

variable {buf piece rest : List α} {pos : Nat}

theorem at_zero (buf : List α) : At buf 0 buf := ⟨Nat.zero_le _, rfl⟩

theorem At.length (h : At buf pos rest) : buf.length = pos + rest.length := by
  have hdrop := congrArg List.length h.rest
  have := h.inside
  rw [List.length_drop] at hdrop
  omega

theorem At.advance (h : At buf pos (piece ++ rest)) : At buf (pos + piece.length) rest := by
  have hlen := h.length
  rw [List.length_append] at hlen
  refine ⟨by omega, ?_⟩
  rw [← List.drop_drop, h.rest, List.drop_left]

theorem At.getRange (h : At buf pos (piece ++ rest)) :
    getRange buf pos (pos + piece.length) = some piece := by
  have hlen := h.length
  rw [List.length_append] at hlen
  rw [Buffer.getRange, if_pos ⟨Nat.le_add_right _ _, by omega⟩, List.drop_take, h.rest]
  simp

theorem getRange_eq_some {start stop : Nat} (h : getRange buf start stop = some piece) :
    start ≤ stop ∧ stop ≤ buf.length ∧ piece.length = stop - start := by
  unfold getRange at h
  split_ifs at h with hin
  obtain rfl := Option.some.inj h
  refine ⟨hin.1, hin.2, ?_⟩
  rw [List.length_drop, List.length_take, Nat.min_eq_left hin.2]

theorem At.split {n : Nat} (h : At buf pos rest) (hn : pos + n ≤ buf.length) :
    ∃ piece rest', rest = piece ++ rest' ∧ piece.length = n ∧ At buf (pos + n) rest' := by
  have hlen := h.length
  have htake : (rest.take n).length = n := by
    rw [List.length_take]
    omega
  have hat : At buf pos (rest.take n ++ rest.drop n) := by rwa [List.take_append_drop]
  have hnext := hat.advance
  rw [htake] at hnext
  exact ⟨rest.take n, rest.drop n, (List.take_append_drop n rest).symm, htake, hnext⟩

/-- A range that was got stands before the reader. -/
theorem At.of_getRange {n : Nat} (h : At buf pos rest) (hpiece : Buffer.getRange buf pos (pos + n) = some piece) :
    ∃ rest', rest = piece ++ rest' ∧ piece.length = n ∧ At buf (pos + n) rest' := by
  obtain ⟨front, rest', rfl, hfront, hrest⟩ := h.split (getRange_eq_some hpiece).2.1
  have hsame := h.getRange
  rw [hfront, hpiece] at hsame
  obtain rfl := Option.some.inj hsame
  exact ⟨rest', rfl, hfront, hrest⟩

/-! ## Big-endian numbers -/

/-- The low `n` bytes of a number. -/
def beBytes : Nat → Nat → List UInt8
  | 0, _ => []
  | n + 1, v => beBytes n (v / 256) ++ [UInt8.ofNat v]

/-- `from_be_bytes`. -/
def beValue (bytes : List UInt8) : Nat := bytes.foldl (fun v b => v * 256 + b.toNat) 0

@[simp] theorem length_beBytes (n v : Nat) : (beBytes n v).length = n := by
  induction n generalizing v with
  | zero => rfl
  | succ n ih => simp [beBytes, ih]

theorem beValue_beBytes {n v : Nat} (h : v < 256 ^ n) : beValue (beBytes n v) = v := by
  induction n generalizing v with
  | zero =>
      have hzero : v = 0 := by simpa using h
      rw [hzero]
      rfl
  | succ n ih =>
      have hhigh : v / 256 < 256 ^ n := by
        rw [Nat.div_lt_iff_lt_mul (by norm_num), ← pow_succ]
        exact h
      have hfold : beValue (beBytes (n + 1) v) = beValue (beBytes n (v / 256)) * 256 + v % 256 := by
        simp [beValue, beBytes]
      rw [hfold, ih hhigh]
      omega

theorem beValue_concat (bytes : List UInt8) (b : UInt8) : beValue (bytes ++ [b]) = beValue bytes * 256 + b.toNat := by
  simp [beValue]

theorem beValue_lt (bytes : List UInt8) : beValue bytes < 256 ^ bytes.length := by
  induction bytes using List.reverseRecOn with
  | nil => exact Nat.one_pos
  | append_singleton bytes b ih =>
      have := b.toNat_lt
      rw [beValue_concat, List.length_append, List.length_singleton, pow_succ]
      omega

theorem beBytes_beValue (bytes : List UInt8) : beBytes bytes.length (beValue bytes) = bytes := by
  induction bytes using List.reverseRecOn with
  | nil => rfl
  | append_singleton bytes b ih =>
      have hb := b.toNat_lt
      have hhigh : beValue (bytes ++ [b]) / 256 = beValue bytes := by
        rw [beValue_concat]
        omega
      have hlow : UInt8.ofNat (beValue (bytes ++ [b])) = b := by
        apply UInt8.toNat_inj.1
        rw [beValue_concat, UInt8.toNat_ofNat']
        omega
      rw [List.length_append, List.length_singleton, beBytes, hhigh, hlow, ih]

end Buffer
