import Mathlib

set_option autoImplicit false

/-! # Percent-decoding, round after round

`decode` is one round: every `%hl` with two hexadecimal digits becomes its byte, and a percent sign
without them stays. A byte that a round makes can complete an escape for the next one, so a byte has
unboundedly many spellings: itself, or a percent sign and two digits, each of them spelled (`Spells`).

Escapes do not overlap, so the order in which they are replaced does not matter: one pass with a stack
(`run`) reaches what the rounds reach (`exists_decode_eq`), a spelling counts for the byte it spells
(`run_spelled`), and a byte that is in no escape stays (`exists_run_inert`). -/

namespace Percent

abbrev Bytes := List UInt8

def percent : UInt8 := 0x25

def hexDigit? (b : UInt8) : Option Nat :=
  if 0x30 ≤ b && b ≤ 0x39 then some (b.toNat - 0x30)
  else if 0x61 ≤ b && b ≤ 0x66 then some (b.toNat - 0x61 + 10)
  else if 0x41 ≤ b && b ≤ 0x46 then some (b.toNat - 0x41 + 10)
  else none

/-- The byte that two hexadecimal digits stand for. -/
def escaped? (h l : UInt8) : Option UInt8 :=
  match hexDigit? h, hexDigit? l with
  | some i, some j => some (UInt8.ofNat (16 * i + j))
  | _, _ => none

/-- One round of decoding. -/
def decode : Bytes → Bytes
  | p :: h :: l :: rest =>
      if p = percent then
        match escaped? h l with
        | some c => c :: decode rest
        | none => p :: decode (h :: l :: rest)
      else p :: decode (h :: l :: rest)
  | bs => bs

/-- A byte that is no part of an escape. -/
def Inert (b : UInt8) : Prop := b ≠ percent ∧ hexDigit? b = none

instance (b : UInt8) : Decidable (Inert b) := inferInstanceAs (Decidable (_ ∧ _))

/-! ## Spellings -/

inductive Spells : Bytes → UInt8 → Prop where
  | byte (b : UInt8) : Spells [b] b
  | escape {x y z : Bytes} {h l c : UInt8} (hp : Spells x percent) (hh : Spells y h) (hl : Spells z l)
      (hc : escaped? h l = some c) : Spells (x ++ (y ++ z)) c

theorem Spells.length_pos {w : Bytes} {b : UInt8} (h : Spells w b) : 0 < w.length := by
  induction h with
  | byte b => exact Nat.one_pos
  | escape _ _ _ _ ihx _ _ =>
      rw [List.length_append]
      omega

/-- A spelling of one byte is that byte. -/
theorem Spells.eq_singleton {w : Bytes} {b : UInt8} (h : Spells w b) (hlen : w.length ≤ 1) :
    w = [b] := by
  cases h with
  | byte b => rfl
  | escape hx hy _ _ =>
      have hx := hx.length_pos
      have hy := hy.length_pos
      rw [List.length_append, List.length_append] at hlen
      omega

/-- A text as spellings of the bytes of another, one after the other. -/
inductive Spelled : Bytes → Bytes → Prop where
  | nil : Spelled [] []
  | cons {x w : Bytes} {b : UInt8} {bs : Bytes} (h : Spells x b) (hs : Spelled w bs) :
      Spelled (x ++ w) (b :: bs)

theorem Spelled.refl (bs : Bytes) : Spelled bs bs := by
  induction bs with
  | nil => exact .nil
  | cons b bs ih => exact .cons (.byte b) ih

theorem Spelled.split {w a b : Bytes} (h : Spelled w (a ++ b)) :
    ∃ u v, w = u ++ v ∧ Spelled u a ∧ Spelled v b := by
  induction a generalizing w with
  | nil => exact ⟨[], w, rfl, .nil, h⟩
  | cons c a ih =>
      cases h with
      | cons hx hs =>
          obtain ⟨u, v, rfl, hu, hv⟩ := ih hs
          exact ⟨_ ++ u, v, (List.append_assoc _ _ _).symm, .cons hx hu, hv⟩

theorem Spelled.singleton {w : Bytes} {b : UInt8} (h : Spelled w [b]) : Spells w b := by
  cases h with
  | cons hx hs =>
      cases hs
      rwa [List.append_nil]

/-- A spelling of a spelling is one. -/
theorem Spells.of_spelled {v w : Bytes} {b : UInt8} (h : Spells v b) (hw : Spelled w v) :
    Spells w b := by
  induction h generalizing w with
  | byte b => exact hw.singleton
  | escape _ _ _ hc ihx ihy ihz =>
      obtain ⟨u, w', rfl, hu, hw'⟩ := hw.split
      obtain ⟨v, t, rfl, hv, ht⟩ := hw'.split
      exact .escape (ihx hu) (ihy hv) (ihz ht) hc

theorem Spelled.trans {w v u : Bytes} (hw : Spelled w v) (hv : Spelled v u) : Spelled w u := by
  induction hv generalizing w with
  | nil => exact hw
  | cons hx _ ih =>
      obtain ⟨a, b, rfl, ha, hb⟩ := hw.split
      exact .cons (hx.of_spelled ha) (ih hb)

/-- A round reads the text as spellings. -/
theorem spelled_decode (bs : Bytes) : Spelled bs (decode bs) := by
  fun_induction decode bs with
  | case1 h l rest c hc ih =>
      have hescape : Spells ([percent] ++ ([h] ++ [l])) c :=
        .escape (.byte percent) (.byte h) (.byte l) hc
      exact Spelled.cons hescape ih
  | case2 h l rest hc ih => exact Spelled.cons (.byte percent) ih
  | case3 p h l rest hp ih => exact Spelled.cons (.byte p) ih
  | case4 bs hshort => exact .refl bs

theorem spelled_iterate (bs : Bytes) (n : ℕ) : Spelled bs (decode^[n] bs) := by
  induction n with
  | zero => exact .refl bs
  | succ n ih =>
      rw [Function.iterate_succ_apply']
      exact ih.trans (spelled_decode _)

/-! ## One pass -/

/-- Push a byte on what was read so far; one that completes an escape is replaced with it. -/
def push : UInt8 → Bytes → Bytes
  | l, h :: p :: stack =>
      if p = percent then
        match escaped? h l with
        | some c => push c stack
        | none => l :: h :: p :: stack
      else l :: h :: p :: stack
  | l, stack => l :: stack

/-- A byte that is no digit completes nothing. -/
theorem push_of_not_digit {b : UInt8} (hb : hexDigit? b = none) (stack : Bytes) :
    push b stack = b :: stack := by
  have hnone : ∀ h, escaped? h b = none := by
    intro h
    unfold escaped?
    rw [hb]
    cases hexDigit? h <;> rfl
  unfold push
  split
  · rw [hnone]
    split <;> rfl
  · rfl

theorem push_percent (stack : Bytes) : push percent stack = percent :: stack :=
  push_of_not_digit (by decide) stack

/-- Above a byte that is no digit, the next byte completes nothing. -/
theorem push_above {b : UInt8} (hb : hexDigit? b = none) (c : UInt8) (stack : Bytes) :
    push c (b :: stack) = c :: b :: stack := by
  have hnone : escaped? b c = none := by
    unfold escaped?
    rw [hb]
  cases stack with
  | nil => rfl
  | cons p stack =>
      rw [push, hnone]
      split <;> rfl

/-- Read a text on top of a stack. -/
def run (stack bs : Bytes) : Bytes := bs.foldl (fun s b => push b s) stack

@[simp] theorem run_nil (stack : Bytes) : run stack [] = stack := rfl

@[simp] theorem run_cons (stack : Bytes) (b : UInt8) (bs : Bytes) :
    run stack (b :: bs) = run (push b stack) bs := rfl

theorem run_append (stack a b : Bytes) : run stack (a ++ b) = run (run stack a) b :=
  List.foldl_append

/-- A percent sign and two digits count for the byte that they stand for. -/
theorem push_escape {h l c : UInt8} (hc : escaped? h l = some c) (stack : Bytes) :
    push l (push h (push percent stack)) = push c stack := by
  rw [push_percent, push_above (by decide), push, if_pos rfl, hc]

theorem run_spells {w : Bytes} {b : UInt8} (h : Spells w b) (stack : Bytes) :
    run stack w = push b stack := by
  induction h generalizing stack with
  | byte b => rfl
  | escape _ _ _ hc ihx ihy ihz => rw [run_append, run_append, ihx, ihy, ihz, push_escape hc]

/-- A text and what it spells are read alike. -/
theorem run_spelled {w bs : Bytes} (h : Spelled w bs) (stack : Bytes) : run stack w = run stack bs := by
  induction h generalizing stack with
  | nil => rfl
  | cons hx _ ih => rw [run_append, run_spells hx, ih, run_cons]

/-- What lies below a byte that is in no escape stays, and so does the byte. -/
theorem exists_push_inert {b : UInt8} (hb : Inert b) (stack : Bytes) :
    ∀ (c : UInt8) (above : Bytes), ∃ above', push c (above ++ b :: stack) = above' ++ b :: stack
  | c, [] => ⟨[c], push_above hb.2 c stack⟩
  | c, [h] => by
      refine ⟨[c, h], ?_⟩
      rw [List.singleton_append, push, if_neg hb.1]
      rfl
  | c, h :: p :: above => by
      rw [List.cons_append, List.cons_append, push]
      split
      · split
        · exact exists_push_inert hb stack _ above
        · exact ⟨c :: h :: p :: above, rfl⟩
      · exact ⟨c :: h :: p :: above, rfl⟩

theorem exists_run_inert {b : UInt8} (hb : Inert b) (stack bs : Bytes) :
    ∃ above, run (b :: stack) bs = above ++ b :: stack := by
  have hgeneral : ∀ above, ∃ above', run (above ++ b :: stack) bs = above' ++ b :: stack := by
    induction bs with
    | nil => exact fun above => ⟨above, rfl⟩
    | cons c bs ih =>
        intro above
        obtain ⟨above', habove⟩ := exists_push_inert hb stack c above
        rw [run_cons, habove]
        exact ih above'
  exact hgeneral []

/-! ## The rounds and the pass -/

/-- A text without an escape in it. -/
def Plain (bs : Bytes) : Prop := ∀ h l c, escaped? h l = some c → ¬[percent, h, l] <:+: bs

/-- A plain text is only pushed. -/
theorem run_plain {stack bs : Bytes} (h : Plain (stack.reverse ++ bs)) :
    run stack bs = bs.reverse ++ stack := by
  induction bs generalizing stack with
  | nil => rfl
  | cons b bs ih =>
      have hpush : push b stack = b :: stack := by
        unfold push
        split
        · rename_i l p stack
          split
          · rename_i hp
            split
            · rename_i c hc
              refine absurd ?_ (h l b c hc)
              rw [hp]
              exact ⟨stack.reverse, bs, by simp⟩
            · rfl
          · rfl
        · rfl
      have hrest : Plain ((b :: stack).reverse ++ bs) := by simpa using h
      rw [run_cons, hpush, ih hrest, List.reverse_cons, List.append_assoc, List.singleton_append]

theorem length_decode_le (bs : Bytes) : (decode bs).length ≤ bs.length := by
  fun_induction decode bs with
  | case1 h l rest c hc ih => simp only [List.length_cons]; omega
  | case2 h l rest hc ih => simpa using ih
  | case3 p h l rest hp ih => simpa using ih
  | case4 bs hshort => exact le_refl _

/-- A round that takes nothing away had no escape to replace. -/
theorem plain_of_length {bs : Bytes} (h : bs.length ≤ (decode bs).length) : Plain bs := by
  intro i j c hc hin
  fun_induction decode bs with
  | case1 h' l rest d hd ih =>
      have hle := length_decode_le rest
      simp only [List.length_cons] at h
      omega
  | case2 h' l rest hnone ih =>
      rcases List.infix_cons_iff.1 hin with hstart | hrest
      · obtain ⟨-, hstart⟩ := List.cons_prefix_cons.1 hstart
        obtain ⟨hi, hstart⟩ := List.cons_prefix_cons.1 hstart
        obtain ⟨hj, -⟩ := List.cons_prefix_cons.1 hstart
        rw [hi, hj, hnone] at hc
        cases hc
      · exact ih (by simpa using h) hrest
  | case3 p h' l rest hp ih =>
      rcases List.infix_cons_iff.1 hin with hstart | hrest
      · exact hp (List.cons_prefix_cons.1 hstart).1.symm
      · exact ih (by simpa using h) hrest
  | case4 bs hshort =>
      obtain ⟨before, after, rfl⟩ := hin
      cases before with
      | nil => exact hshort _ _ _ _ rfl
      | cons a before =>
          cases before with
          | nil => exact hshort _ _ _ _ rfl
          | cons b before => cases before <;> exact hshort _ _ _ _ rfl

/-- The text that one pass reads. -/
def decoded (bs : Bytes) : Bytes := (run [] bs).reverse

theorem decoded_plain {bs : Bytes} (h : Plain bs) : decoded bs = bs := by
  unfold decoded
  rw [run_plain (by simpa using h), List.append_nil, List.reverse_reverse]

/-- After enough rounds the text is what one pass reads. -/
theorem exists_decode_eq (bs : Bytes) : ∃ n, decode^[n] bs = decoded bs := by
  induction hlen : bs.length using Nat.strong_induction_on generalizing bs with
  | _ len ih =>
      by_cases hplain : bs.length ≤ (decode bs).length
      · exact ⟨0, (decoded_plain (plain_of_length hplain)).symm⟩
      · obtain ⟨n, hn⟩ := ih _ (hlen ▸ not_le.1 hplain) (decode bs) rfl
        refine ⟨n + 1, ?_⟩
        rw [Function.iterate_succ_apply, hn]
        unfold decoded
        rw [run_spelled (spelled_decode bs)]

end Percent
