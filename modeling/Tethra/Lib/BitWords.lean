import Mathlib.Data.List.Basic
import Mathlib.Data.Nat.Bitwise
import Mathlib.Tactic.SplitIfs

set_option autoImplicit false

/-! # Words of bits

A list of 64-bit words is a list of bits, the low bit of a word first. A segment stands for a run of equal words and
the words behind it as they are, and is written as one word that counts both, before the latter. -/

namespace BitWords

/-- The bit at a position; behind the words there is none. -/
def bitAt (ws : List Nat) (k : Nat) : Bool := (ws.getD (k / 64) 0).testBit (k % 64)

theorem bitAt_nil (k : Nat) : bitAt [] k = false := by
  simp [bitAt]

theorem bitAt_append (a b : List Nat) (k : Nat) :
    bitAt (a ++ b) k = if k < 64 * a.length then bitAt a k else bitAt b (k - 64 * a.length) := by
  unfold bitAt
  split_ifs with h
  · rw [List.getD_append _ _ _ _ (by omega)]
  · have hdiv : (k - 64 * a.length) / 64 = k / 64 - a.length := by omega
    have hmod : (k - 64 * a.length) % 64 = k % 64 := by omega
    rw [List.getD_append_right _ _ _ _ (by omega), hdiv, hmod]

theorem bitAt_cons (w : Nat) (ws : List Nat) (k : Nat) :
    bitAt (w :: ws) k = if k < 64 then w.testBit k else bitAt ws (k - 64) := by
  rw [← List.singleton_append, bitAt_append, List.length_singleton, Nat.mul_one]
  split_ifs with h
  · have hdiv : k / 64 = 0 := by omega
    have hmod : k % 64 = k := by omega
    simp [bitAt, hdiv, hmod]
  · rfl

theorem bitAt_of_le {ws : List Nat} {k : Nat} (h : 64 * ws.length ≤ k) : bitAt ws k = false := by
  unfold bitAt
  rw [List.getD_eq_default _ _ (by omega), Nat.zero_testBit]

theorem bitAt_replicate {n k : Nat} (w : Nat) (h : k < 64 * n) :
    bitAt (List.replicate n w) k = w.testBit (k % 64) := by
  unfold bitAt
  rw [List.getD_eq_getElem _ _ (by rw [List.length_replicate]; omega), List.getElem_replicate]

/-! ## Segments -/

/-- A run of equal words, and the words behind it. -/
structure Segment where
  value : Bool
  run : Nat
  literals : List Nat
  runFits : run < 2 ^ 32
  countFits : literals.length < 2 ^ 31
  literalsFit : ∀ w ∈ literals, w < 2 ^ 64

/-- All ones, or all zeros. -/
def runWord (value : Bool) : Nat := if value then 2 ^ 64 - 1 else 0

def Segment.expand (s : Segment) : List Nat := List.replicate s.run (runWord s.value) ++ s.literals

/-- The word that counts: the value, the length of the run, and how many words follow. -/
def Segment.header (s : Segment) : Nat := s.value.toNat + 2 * s.run + 2 ^ 33 * s.literals.length

def Segment.words (s : Segment) : List Nat := s.header :: s.literals

variable (s : Segment)

theorem Segment.header_value : s.header % 2 = s.value.toNat := by
  have := s.value.toNat_lt
  unfold header
  omega

theorem Segment.header_run : s.header / 2 % 2 ^ 32 = s.run := by
  have := s.value.toNat_lt
  have := s.runFits
  unfold header
  omega

theorem Segment.header_count : s.header / 2 ^ 33 = s.literals.length := by
  have := s.value.toNat_lt
  have := s.runFits
  unfold header
  omega

theorem Segment.header_lt : s.header < 2 ^ 64 := by
  have := s.value.toNat_lt
  have := s.runFits
  have := s.countFits
  unfold header
  omega

theorem Segment.words_lt {w : Nat} (h : w ∈ s.words) : w < 2 ^ 64 := by
  obtain rfl | hw := List.mem_cons.1 h
  · exact s.header_lt
  · exact s.literalsFit w hw

theorem Segment.length_expand : s.expand.length = s.run + s.literals.length := by
  rw [expand, List.length_append, List.length_replicate]

/-- A bit of the expansion: in the run its value, behind it the bit of a word. -/
theorem Segment.bitAt_expand (k : Nat) :
    bitAt s.expand k = if k < 64 * s.run then s.value else bitAt s.literals (k - 64 * s.run) := by
  rw [expand, bitAt_append, List.length_replicate]
  split_ifs with h
  · rw [bitAt_replicate _ h, runWord]
    cases s.value with
    | true => rw [if_pos rfl, Nat.testBit_two_pow_sub_one]; simp [Nat.mod_lt]
    | false => simp
  · rfl

end BitWords
