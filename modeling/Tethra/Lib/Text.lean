import Mathlib

set_option autoImplicit false

/-! # Text as a list of characters

Text is modelled by `List Char`, so that scanning is structural recursion and every cut of a string
is a list append. The character classes are Unicode's `White_Space` property and the `Cc` category;
`trim` and its halves strip `White_Space` from the ends.

The second half relates a text to its lines: `List.splitOn '\n'` and joining with a line ending are
inverse on texts without a line feed (`splitOn_intercalate`), and a carriage return left of a line
feed is stripped again (`stripCr`). -/

namespace Text

/-! ## Character classes -/

/-- Unicode `White_Space`. -/
def isWhitespace (c : Char) : Bool :=
  let n := c.toNat
  (9 ≤ n && n ≤ 13) || n == 0x20 || n == 0x85 || n == 0xA0 || n == 0x1680 ||
    (0x2000 ≤ n && n ≤ 0x200A) || n == 0x2028 || n == 0x2029 || n == 0x202F || n == 0x205F ||
    n == 0x3000

/-- Unicode general category `Cc`. -/
def isControl (c : Char) : Bool :=
  let n := c.toNat
  n < 0x20 || (0x7F ≤ n && n ≤ 0x9F)

/-- ASCII whitespace: space, tab, line feed, form feed, carriage return. -/
def isAsciiWhitespace (c : Char) : Bool :=
  c == ' ' || c == '\t' || c == '\n' || c == '\x0c' || c == '\r'

def isAsciiAlphabetic (c : Char) : Bool :=
  let n := c.toNat
  (0x41 ≤ n && n ≤ 0x5A) || (0x61 ≤ n && n ≤ 0x7A)

def isAsciiAlphanumeric (c : Char) : Bool :=
  isAsciiAlphabetic c || (0x30 ≤ c.toNat && c.toNat ≤ 0x39)

/-! ## Trimming -/

def trimStart (t : List Char) : List Char := t.dropWhile isWhitespace

def trimEnd (t : List Char) : List Char := t.rdropWhile isWhitespace

def trim (t : List Char) : List Char := trimEnd (trimStart t)

/-- The text does not begin with whitespace. -/
def NoLeadingWs (t : List Char) : Prop := ∀ c ∈ t.head?, isWhitespace c = false

/-- The text does not end with whitespace. -/
def NoTrailingWs (t : List Char) : Prop := ∀ c ∈ t.getLast?, isWhitespace c = false

theorem trimStart_of_noLeadingWs {t : List Char} (h : NoLeadingWs t) : trimStart t = t := by
  cases t with
  | nil => rfl
  | cons c cs =>
      have hc : isWhitespace c = false := h c rfl
      simp [trimStart, hc]

theorem trimEnd_of_noTrailingWs {t : List Char} (h : NoTrailingWs t) : trimEnd t = t := by
  rw [trimEnd, List.rdropWhile_eq_self_iff]
  intro hne
  simp [h _ (List.getLast?_eq_some_getLast hne)]

theorem trim_of_noWs {t : List Char} (hl : NoLeadingWs t) (hr : NoTrailingWs t) : trim t = t := by
  rw [trim, trimStart_of_noLeadingWs hl, trimEnd_of_noTrailingWs hr]

theorem noLeadingWs_cons {c : Char} {cs : List Char} :
    NoLeadingWs (c :: cs) ↔ isWhitespace c = false := by
  simp [NoLeadingWs]

theorem noTrailingWs_append_cons {t u : List Char} {c : Char} :
    NoTrailingWs (t ++ c :: u) ↔ NoTrailingWs (c :: u) := by
  simp [NoTrailingWs]

theorem noTrailingWs_trimEnd (t : List Char) : NoTrailingWs (trimEnd t) := by
  intro c hc
  have hne : List.rdropWhile isWhitespace t ≠ [] := by
    rintro h
    simp [trimEnd, h] at hc
  have hlast := List.rdropWhile_last_not isWhitespace t hne
  rw [trimEnd, List.getLast?_eq_some_getLast hne] at hc
  obtain rfl := Option.some.inj hc
  simpa using hlast

theorem noLeadingWs_trimStart (t : List Char) : NoLeadingWs (trimStart t) := by
  intro c hc
  have := List.head?_dropWhile_not isWhitespace t
  rw [trimStart] at hc
  cases hd : (t.dropWhile isWhitespace).head? with
  | none => simp [hd] at hc
  | some d =>
      rw [hd] at hc this
      obtain rfl := Option.some.inj hc
      simpa using this

theorem noLeadingWs_trim (t : List Char) : NoLeadingWs (trim t) := by
  intro c hc
  obtain ⟨u, hu⟩ := List.rdropWhile_prefix isWhitespace (trimStart t)
  refine noLeadingWs_trimStart t c ?_
  rw [trim, trimEnd] at hc
  rw [← hu]
  cases h : (trimStart t).rdropWhile isWhitespace with
  | nil => simp [h] at hc
  | cons d ds => simpa [h] using hc

theorem noTrailingWs_trim (t : List Char) : NoTrailingWs (trim t) := noTrailingWs_trimEnd _

/-- Whitespace at the end does not survive `trimEnd`. -/
theorem trimEnd_append_of_ws {t u : List Char} (h : ∀ c ∈ u, isWhitespace c = true) :
    trimEnd (t ++ u) = trimEnd t := by
  induction u using List.reverseRecOn with
  | nil => simp
  | append_singleton u c ih =>
      rw [trimEnd, ← List.append_assoc, List.rdropWhile_concat_pos _ _ _ (h c (by simp))]
      exact ih fun d hd => h d (by simp [hd])

theorem trimStart_ws_append {t u : List Char} (h : ∀ c ∈ u, isWhitespace c = true) :
    trimStart (u ++ t) = trimStart t := by
  rw [trimStart, List.dropWhile_append_of_pos h]
  rfl

/-- Trimming the start and then the end commutes with dropping trailing whitespace. -/
theorem trim_append_of_ws {t u : List Char} (h : ∀ c ∈ u, isWhitespace c = true) :
    trim (t ++ u) = trim t := by
  by_cases hall : ∀ c ∈ t, isWhitespace c = true
  · have htu : ∀ c ∈ t ++ u, isWhitespace c = true := by
      intro c hc
      rcases List.mem_append.1 hc with hc | hc
      · exact hall c hc
      · exact h c hc
    simp [trim, trimStart, List.dropWhile_eq_nil_iff.2 htu, List.dropWhile_eq_nil_iff.2 hall]
  · push Not at hall
    have hne : t.dropWhile isWhitespace ≠ [] := by
      rw [ne_eq, List.dropWhile_eq_nil_iff]
      push Not
      simpa using hall
    have happ : trimStart (t ++ u) = trimStart t ++ u := by
      rw [trimStart, List.dropWhile_append]
      simp [List.isEmpty_iff, hne, trimStart]
    rw [trim, happ, trimEnd_append_of_ws h, trim]

theorem mem_of_mem_trimEnd {c : Char} {t : List Char} (h : c ∈ trimEnd t) : c ∈ t :=
  (List.rdropWhile_prefix isWhitespace t).subset h

theorem mem_of_mem_trimStart {c : Char} {t : List Char} (h : c ∈ trimStart t) : c ∈ t :=
  (List.dropWhile_suffix isWhitespace).subset h

theorem mem_of_mem_trim {c : Char} {t : List Char} (h : c ∈ trim t) : c ∈ t :=
  mem_of_mem_trimStart (mem_of_mem_trimEnd h)

/-! ## Prefixes and cutting at a character -/

/-- `strip_prefix`: what follows `p`, when the text begins with `p`. -/
def stripPrefix : List Char → List Char → Option (List Char)
  | [], t => some t
  | _ :: _, [] => none
  | p :: ps, c :: cs => if p = c then stripPrefix ps cs else none

theorem stripPrefix_append (p t : List Char) : stripPrefix p (p ++ t) = some t := by
  induction p with
  | nil => rfl
  | cons c p ih => simpa [stripPrefix] using ih

/-- A prefix holding a character that `t` lacks does not reach past a separator it lacks itself. -/
theorem stripPrefix_eq_some {p t u : List Char} : stripPrefix p t = some u ↔ t = p ++ u := by
  constructor
  · intro h
    induction p generalizing t with
    | nil => exact Option.some.inj h
    | cons c p ih =>
        cases t with
        | nil => cases h
        | cons d t =>
            rw [stripPrefix] at h
            split_ifs at h with hcd
            rw [hcd, ih h, List.cons_append]
  · rintro rfl
    exact stripPrefix_append p u

theorem stripPrefix_append_none {p t : List Char} {c d : Char} (u : List Char) (hp : d ∈ p)
    (ht : d ∉ t) (hc : c ∉ p) : stripPrefix p (t ++ c :: u) = none := by
  induction p generalizing t with
  | nil => simp at hp
  | cons x p ih =>
      simp only [List.mem_cons, not_or] at hc
      cases t with
      | nil => simp [stripPrefix, Ne.symm hc.1]
      | cons y t =>
          simp only [List.cons_append, stripPrefix]
          split
          · rename_i hxy
            subst hxy
            have hdp : d ∈ p := by
              rcases List.mem_cons.1 hp with rfl | hdp
              · exact absurd (List.mem_cons_self ..) ht
              · exact hdp
            exact ih hdp (fun h => ht (List.mem_cons_of_mem _ h)) hc.2
          · rfl

theorem stripPrefix_append_singleton {p : List Char} {c : Char} (hc : c ∉ p) (t : List Char) :
    stripPrefix p (t ++ [c]) = (stripPrefix p t).map (· ++ [c]) := by
  induction p generalizing t with
  | nil => rfl
  | cons x p ih =>
      simp only [List.mem_cons, not_or] at hc
      cases t with
      | nil => simp [stripPrefix, Ne.symm hc.1]
      | cons y t =>
          simp only [List.cons_append, stripPrefix]
          split
          · exact ih hc.2 t
          · rfl

/-- The text before and after the first occurrence of `c`. -/
def splitOnce (c : Char) : List Char → Option (List Char × List Char)
  | [] => none
  | d :: ds => if d = c then some ([], ds) else (splitOnce c ds).map fun r => (d :: r.1, r.2)

theorem splitOnce_append {c : Char} {t : List Char} (h : c ∉ t) (u : List Char) :
    splitOnce c (t ++ c :: u) = some (t, u) := by
  induction t with
  | nil => simp [splitOnce]
  | cons d t ih =>
      simp only [List.mem_cons, not_or] at h
      simp [splitOnce, Ne.symm h.1, ih h.2]

theorem splitOnce_append_right {c : Char} {u : List Char} (h : c ∉ u) (t : List Char) :
    splitOnce c (t ++ u) = (splitOnce c t).map fun r => (r.1, r.2 ++ u) := by
  induction t with
  | nil =>
      induction u with
      | nil => rfl
      | cons d u ih =>
          simp only [List.mem_cons, not_or] at h
          have := ih h.2
          simp only [List.nil_append, splitOnce, Option.map_none] at this ⊢
          simp [Ne.symm h.1, this]
  | cons d t ih =>
      simp only [List.cons_append, splitOnce]
      split
      · rfl
      · simp [ih, Function.comp_def]

theorem splitOnce_eq_some {c : Char} {t a b : List Char} (h : splitOnce c t = some (a, b)) :
    t = a ++ c :: b ∧ c ∉ a := by
  induction t generalizing a with
  | nil => simp [splitOnce] at h
  | cons d t ih =>
      simp only [splitOnce] at h
      split at h
      · rename_i hd
        simp only [Option.some.injEq, Prod.mk.injEq] at h
        obtain ⟨rfl, rfl⟩ := h
        simp [hd]
      · rename_i hd
        obtain ⟨⟨a', b'⟩, hr, hab⟩ := Option.map_eq_some_iff.1 h
        simp only [Prod.mk.injEq] at hab
        obtain ⟨rfl, rfl⟩ := hab
        obtain ⟨rfl, hna⟩ := ih hr
        exact ⟨rfl, by simp [Ne.symm hd, hna]⟩

/-! ## Line endings -/

/-- `strip_suffix('\r')`, or the text itself. -/
def stripCr (t : List Char) : List Char :=
  if t.getLast? = some '\r' then t.dropLast else t

@[simp] theorem stripCr_append_cr (t : List Char) : stripCr (t ++ ['\r']) = t := by
  simp [stripCr]

theorem stripCr_of_getLast?_ne {t : List Char} (h : t.getLast? ≠ some '\r') : stripCr t = t := by
  simp [stripCr, h]

/-- Every trailing carriage return removed: what is left of a line besides its ending. -/
def stripCrs (t : List Char) : List Char := t.rdropWhile (· == '\r')

@[simp] theorem stripCrs_nil : stripCrs [] = [] := rfl

@[simp] theorem stripCrs_append_cr (t : List Char) : stripCrs (t ++ ['\r']) = stripCrs t := by
  rw [stripCrs, List.rdropWhile_concat_pos _ _ _ (by decide)]
  rfl

theorem stripCrs_stripCr (t : List Char) : stripCrs (stripCr t) = stripCrs t := by
  by_cases h : t.getLast? = some '\r'
  · obtain ⟨u, rfl⟩ : ∃ u, t = u ++ ['\r'] :=
      ⟨t.dropLast, (List.dropLast_append_getLast? '\r' h).symm⟩
    simp
  · rw [stripCr_of_getLast?_ne h]

/-- What `stripCrs` removes is a run of carriage returns. -/
theorem exists_eq_stripCrs_append (t : List Char) :
    ∃ u, t = stripCrs t ++ u ∧ ∀ c ∈ u, isWhitespace c = true := by
  refine ⟨t.rtakeWhile (· == '\r'), List.rdropWhile_append_rtakeWhile.symm, ?_⟩
  intro c hc
  have := List.mem_rtakeWhile_imp hc
  simp only [beq_iff_eq] at this
  subst this
  decide

theorem not_mem_stripCr {c : Char} {t : List Char} (h : c ∉ t) : c ∉ stripCr t := by
  unfold stripCr
  split
  · exact fun hc => h (List.mem_of_mem_dropLast hc)
  · exact h

/-! ## Substrings -/

/-- A substring without `c` lies left of an appended `c`. -/
theorem isInfix_of_isInfix_append_singleton {l t : List Char} {c : Char} (hc : c ∉ l)
    (h : l <:+: t ++ [c]) : l <:+: t := by
  obtain ⟨a, b, hab⟩ := h
  induction b using List.reverseRecOn with
  | nil =>
      induction l using List.reverseRecOn with
      | nil => exact List.nil_infix
      | append_singleton l d _ =>
          have hd : d = c := by
            have := congrArg List.getLast? hab
            simpa using this
          exact absurd (by simp [hd]) hc
  | append_singleton b d _ =>
      have hb : a ++ l ++ b = t := by
        have := congrArg List.dropLast hab
        simpa [← List.append_assoc] using this
      exact ⟨a, b, hb⟩

/-- Carriage returns at the end of a line do not matter for a substring without one. -/
theorem isInfix_stripCrs {l : List Char} (hl : '\r' ∉ l) (t : List Char) :
    l <:+: stripCrs t ↔ l <:+: t := by
  constructor
  · exact fun h => h.trans (List.rdropWhile_prefix _ t).isInfix
  · intro h
    induction t using List.reverseRecOn with
    | nil => exact h
    | append_singleton t c ih =>
        by_cases hc : c = '\r'
        · subst hc
          rw [stripCrs_append_cr]
          exact ih (isInfix_of_isInfix_append_singleton hl h)
        · rw [stripCrs, List.rdropWhile_concat_neg _ _ _ (by simpa using hc)]
          exact h

end Text
