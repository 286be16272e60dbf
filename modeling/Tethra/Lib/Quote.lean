import Mathlib

set_option autoImplicit false

/-! # The debug print of strings and records

A string is printed in quotes, with escapes. Each code word says where it ends (`SelfDelimiting`), so the
name and the fields of a record are read back from its print (`debugStruct_inj`). -/

namespace Quote

/-- A code word and what follows it are read back. -/
def SelfDelimiting {α β : Type} (code : α → List β) : Prop :=
  ∀ ⦃a b : α⦄ ⦃u v : List β⦄, code a ++ u = code b ++ v → a = b ∧ u = v

/-- Code words up to a stop that none of them starts with. -/
theorem flatMap_append_inj {α β : Type} {code : α → List β} (h : SelfDelimiting code) {stop : β}
    (hstop : ∀ a, ∃ b rest, code a = b :: rest ∧ b ≠ stop) {as bs : List α} {u v : List β}
    (heq : as.flatMap code ++ stop :: u = bs.flatMap code ++ stop :: v) : as = bs ∧ u = v := by
  induction as generalizing bs with
  | nil =>
      cases bs with
      | nil => exact ⟨rfl, (List.cons.inj heq).2⟩
      | cons b bs =>
          obtain ⟨x, rest, hcode, hx⟩ := hstop b
          simp only [List.flatMap_nil, List.nil_append, List.flatMap_cons, hcode, List.cons_append,
            List.cons.injEq] at heq
          exact absurd heq.1.symm hx
  | cons a as ih =>
      cases bs with
      | nil =>
          obtain ⟨x, rest, hcode, hx⟩ := hstop a
          simp only [List.flatMap_nil, List.nil_append, List.flatMap_cons, hcode, List.cons_append,
            List.cons.injEq] at heq
          exact absurd heq.1 hx
      | cons b bs =>
          simp only [List.flatMap_cons, List.append_assoc] at heq
          obtain ⟨rfl, hrest⟩ := h heq
          obtain ⟨rfl, huv⟩ := ih hrest
          exact ⟨rfl, huv⟩

/-- What stands before the first stop, and after it. -/
theorem append_stop_inj {α : Type} {stop : α} {xs ys u v : List α} (hxs : stop ∉ xs) (hys : stop ∉ ys)
    (h : xs ++ stop :: u = ys ++ stop :: v) : xs = ys ∧ u = v := by
  induction xs generalizing ys with
  | nil =>
      cases ys with
      | nil => exact ⟨rfl, (List.cons.inj h).2⟩
      | cons y ys => exact absurd (List.cons.inj h).1 (List.ne_of_not_mem_cons hys)
  | cons x xs ih =>
      cases ys with
      | nil => exact absurd (List.cons.inj h).1.symm (List.ne_of_not_mem_cons hxs)
      | cons y ys =>
          obtain ⟨rfl, hrest⟩ := List.cons.inj h
          obtain ⟨rfl, huv⟩ := ih (List.not_mem_of_not_mem_cons hxs) (List.not_mem_of_not_mem_cons hys)
            hrest
          exact ⟨rfl, huv⟩

/-! ## Hexadecimal digits -/

theorem digitChar_inj {m n : Nat} (hm : m < 16) (hn : n < 16) (h : m.digitChar = n.digitChar) :
    m = n := by
  have hall : ∀ i j : Fin 16, Nat.digitChar i = Nat.digitChar j → i = j := by decide
  exact congrArg Fin.val (hall ⟨m, hm⟩ ⟨n, hn⟩ h)

theorem digitChar_ne_brace {n : Nat} (hn : n < 16) : n.digitChar ≠ '\x7d' := by
  have hall : ∀ i : Fin 16, Nat.digitChar i ≠ '\x7d' := by decide
  exact hall ⟨n, hn⟩

theorem toDigits_step (n : Nat) : Nat.toDigits 16 n
    = if n < 16 then [n.digitChar] else Nat.toDigits 16 (n / 16) ++ [(n % 16).digitChar] :=
  Nat.toDigits_eq_if (by decide)

theorem toDigits_inj {m n : Nat} (h : Nat.toDigits 16 m = Nat.toDigits 16 n) : m = n := by
  induction m using Nat.strong_induction_on generalizing n with
  | _ m ih =>
      have hlast : (m % 16).digitChar = (n % 16).digitChar ∧
          ((m < 16 ↔ n < 16) ∧ (16 ≤ m → Nat.toDigits 16 (m / 16) = Nat.toDigits 16 (n / 16))) := by
        rw [toDigits_step m, toDigits_step n] at h
        split at h <;> split at h
        · rename_i hm hn
          rw [Nat.mod_eq_of_lt hm, Nat.mod_eq_of_lt hn]
          exact ⟨(List.cons.inj h).1, by simp [hm, hn], fun hle => absurd hle (by omega)⟩
        · have hlen := congrArg List.length h
          have hpos := @Nat.length_toDigits_pos 16 (n / 16)
          rw [List.length_append, List.length_singleton, List.length_singleton] at hlen
          omega
        · have hlen := congrArg List.length h
          have hpos := @Nat.length_toDigits_pos 16 (m / 16)
          rw [List.length_append, List.length_singleton, List.length_singleton] at hlen
          omega
        · rename_i hm hn
          obtain ⟨hinit, hdigit⟩ := List.append_inj' h rfl
          exact ⟨(List.cons.inj hdigit).1, by simp [hm, hn], fun _ => hinit⟩
      obtain ⟨hdigit, hsmall, hinit⟩ := hlast
      have hmod := digitChar_inj (Nat.mod_lt m (by decide)) (Nat.mod_lt n (by decide)) hdigit
      by_cases hm : m < 16
      · have hn := hsmall.1 hm
        rw [Nat.mod_eq_of_lt hm, Nat.mod_eq_of_lt hn] at hmod
        exact hmod
      · have hdiv := ih (m / 16) (by omega) (hinit (by omega))
        omega

theorem brace_notMem_toDigits (n : Nat) : '\x7d' ∉ Nat.toDigits 16 n := by
  induction n using Nat.strong_induction_on with
  | _ n ih =>
      rw [toDigits_step]
      split
      · rename_i hn
        simp [(digitChar_ne_brace hn).symm]
      · have hhigh := ih (n / 16) (by omega)
        have hlow := digitChar_ne_brace (Nat.mod_lt n (show 0 < 16 by decide))
        simp only [List.mem_append, List.mem_singleton, not_or]
        exact ⟨hhigh, hlow.symm⟩

/-! ## Escapes -/

/-- The characters with a short escape. -/
def shortEscape (c : Char) : Option Char :=
  if c = '\x00' then some '0'
  else if c = '\t' then some 't'
  else if c = '\r' then some 'r'
  else if c = '\n' then some 'n'
  else if c = '\\' then some '\\'
  else if c = '"' then some '"'
  else none

/-- One character of a quoted string; `unprintable` are the characters that are given by number. -/
def escape (unprintable : Char → Bool) (c : Char) : List Char :=
  match shortEscape c with
  | some e => ['\\', e]
  | none =>
      if unprintable c then '\\' :: 'u' :: '\x7b' :: (Nat.toDigits 16 c.toNat ++ ['\x7d']) else [c]

def quote (unprintable : Char → Bool) (s : List Char) : List Char :=
  '"' :: (s.flatMap (escape unprintable) ++ ['"'])

/-- The character that a short escape stands for. -/
def unescape (e : Char) : Char :=
  if e = '0' then '\x00'
  else if e = 't' then '\t'
  else if e = 'r' then '\r'
  else if e = 'n' then '\n'
  else e

theorem unescape_shortEscape {c e : Char} (h : shortEscape c = some e) : unescape e = c ∧ e ≠ 'u' := by
  unfold shortEscape at h
  split_ifs at h with h0 ht hr hn hslash hquote
  · obtain rfl := Option.some.inj h
    exact ⟨h0.symm, by decide⟩
  · obtain rfl := Option.some.inj h
    exact ⟨ht.symm, by decide⟩
  · obtain rfl := Option.some.inj h
    exact ⟨hr.symm, by decide⟩
  · obtain rfl := Option.some.inj h
    exact ⟨hn.symm, by decide⟩
  · obtain rfl := Option.some.inj h
    exact ⟨hslash.symm, by decide⟩
  · obtain rfl := Option.some.inj h
    exact ⟨hquote.symm, by decide⟩

theorem shortEscape_none {c : Char} (h : shortEscape c = none) : c ≠ '\\' ∧ c ≠ '"' := by
  unfold shortEscape at h
  split_ifs at h with h0 ht hr hn hslash hquote
  exact ⟨hslash, hquote⟩

/-- A character is escaped shortly, by number, or not at all. -/
theorem escape_cases (unprintable : Char → Bool) (c : Char) :
    (∃ e, shortEscape c = some e ∧ escape unprintable c = ['\\', e]) ∨
    escape unprintable c = '\\' :: 'u' :: '\x7b' :: (Nat.toDigits 16 c.toNat ++ ['\x7d']) ∨
    (shortEscape c = none ∧ escape unprintable c = [c]) := by
  unfold escape
  cases hc : shortEscape c with
  | some e => exact .inl ⟨e, rfl, rfl⟩
  | none =>
      by_cases hnumber : unprintable c = true
      · exact .inr (.inl (if_pos hnumber))
      · exact .inr (.inr ⟨rfl, if_neg hnumber⟩)

theorem escape_selfDelimiting (unprintable : Char → Bool) : SelfDelimiting (escape unprintable) := by
  intro c d u v h
  obtain ⟨e, hc, hcode⟩ | hcode | ⟨hc, hcode⟩ := escape_cases unprintable c <;>
    obtain ⟨e', hd, hcode'⟩ | hcode' | ⟨hd, hcode'⟩ := escape_cases unprintable d <;>
    simp only [hcode, hcode', List.cons_append, List.nil_append, List.append_assoc, List.cons.injEq,
      true_and] at h
  · obtain ⟨rfl, huv⟩ := h
    exact ⟨(unescape_shortEscape hc).1.symm.trans (unescape_shortEscape hd).1, huv⟩
  · exact absurd h.1 (unescape_shortEscape hc).2
  · exact absurd h.1.symm (shortEscape_none hd).1
  · exact absurd h.1.symm (unescape_shortEscape hd).2
  · obtain ⟨hdigits, huv⟩ := append_stop_inj (brace_notMem_toDigits _) (brace_notMem_toDigits _) h
    exact ⟨Char.toNat_inj.1 (toDigits_inj hdigits), huv⟩
  · exact absurd h.1.symm (shortEscape_none hd).1
  · exact absurd h.1 (shortEscape_none hc).1
  · exact absurd h.1 (shortEscape_none hc).1
  · exact h

theorem escape_ne_quote (unprintable : Char → Bool) (c : Char) :
    ∃ b rest, escape unprintable c = b :: rest ∧ b ≠ '"' := by
  obtain ⟨e, hc, hcode⟩ | hcode | ⟨hc, hcode⟩ := escape_cases unprintable c
  · exact ⟨_, _, hcode, by decide⟩
  · exact ⟨_, _, hcode, by decide⟩
  · exact ⟨_, _, hcode, (shortEscape_none hc).2⟩

/-- A quoted string and what follows it are read back. -/
theorem quote_selfDelimiting (unprintable : Char → Bool) : SelfDelimiting (quote unprintable) := by
  intro a b u v h
  unfold quote at h
  simp only [List.cons_append, List.append_assoc, List.nil_append, List.cons.injEq, true_and] at h
  exact flatMap_append_inj (escape_selfDelimiting unprintable) (escape_ne_quote unprintable) h

/-! ## Records -/

/-- The fields of a record, each a name and the string it holds. -/
def debugFields (unprintable : Char → Bool) : String → List (String × List Char) → List Char
  | _, [] => " \x7d".toList
  | before, (name, value) :: fields =>
      before.toList ++ (name.toList ++ (": ".toList ++ (quote unprintable value
        ++ debugFields unprintable ", " fields)))

/-- The derived print of a record: its name, and its fields in braces where it has some. -/
def debugStruct (unprintable : Char → Bool) (name : String) (fields : List (String × List Char)) :
    List Char :=
  name.toList ++ if fields = [] then [] else debugFields unprintable " \x7b " fields

theorem debugFields_inj {unprintable : Char → Bool} {before : String}
    {fields fields' : List (String × List Char)}
    (hnames : fields.map Prod.fst = fields'.map Prod.fst)
    (h : debugFields unprintable before fields = debugFields unprintable before fields') :
    fields = fields' := by
  induction fields generalizing before fields' with
  | nil => exact (List.map_eq_nil_iff.1 hnames.symm).symm
  | cons field fields ih =>
      cases fields' with
      | nil => cases hnames
      | cons field' fields' =>
          obtain ⟨name, value⟩ := field
          obtain ⟨name', value'⟩ := field'
          obtain ⟨rfl, hrest⟩ := List.cons.inj hnames
          unfold debugFields at h
          have hvalue := List.append_cancel_left (List.append_cancel_left (List.append_cancel_left h))
          obtain ⟨rfl, hfields⟩ := quote_selfDelimiting unprintable hvalue
          rw [ih hrest hfields]

/-- A print starts with the name up to its first blank. -/
theorem debugStruct_append (unprintable : Char → Bool) (name : String)
    (fields : List (String × List Char)) :
    ∃ rest, debugStruct unprintable name fields ++ [' '] = name.toList ++ ' ' :: rest := by
  unfold debugStruct
  cases fields with
  | nil => exact ⟨[], by simp⟩
  | cons field fields =>
      refine ⟨'\x7b' :: ' ' :: (field.1.toList ++ (": ".toList ++ (quote unprintable field.2
        ++ debugFields unprintable ", " fields)) ++ [' ']), ?_⟩
      simp [debugFields]

/-- Prints of records whose names have no blank determine the names, and for records with the same field
    names also the fields. -/
theorem debugStruct_inj {unprintable : Char → Bool} {name name' : String}
    {fields fields' : List (String × List Char)} (hname : ' ' ∉ name.toList) (hname' : ' ' ∉ name'.toList)
    (h : debugStruct unprintable name fields = debugStruct unprintable name' fields') :
    name = name' ∧ (fields.map Prod.fst = fields'.map Prod.fst → fields = fields') := by
  obtain ⟨rest, hrest⟩ := debugStruct_append unprintable name fields
  obtain ⟨rest', hrest'⟩ := debugStruct_append unprintable name' fields'
  rw [h, hrest'] at hrest
  obtain rfl := String.toList_inj.1 (append_stop_inj hname' hname hrest).1
  refine ⟨rfl, fun hnames => ?_⟩
  unfold debugStruct at h
  have htext := List.append_cancel_left h
  cases fields with
  | nil => exact (List.map_eq_nil_iff.1 hnames.symm).symm
  | cons field fields =>
      cases fields' with
      | nil => cases hnames
      | cons field' fields' => exact debugFields_inj hnames htext

end Quote
