import Mathlib.Data.List.SplitOn
import Tethra.Lib.Url
import Tethra.Observe.Policy

set_option autoImplicit false

/-! # Spellings of an address (`observe/src/policy.rs`)

One address has many spellings: `inet_aton` reads one to four numbers, each in one of three radices, and an IPv6
address may hold an IPv4 address. The policy reads every one of them as the address, so what is denied under one
spelling is denied under all, and the reading of a shorthand only ever denies more. An authority on the allow
list is let through under the spelling that is on the list (`allow_list_is_by_spelling`). -/

namespace Tethra.Observe

/-! ## What `inet_aton` reads -/

/-- A number as C spells it. -/
inductive PartSpelling : Str → Nat → Prop where
  | decimal {digits : Str} (nonempty : digits ≠ []) (isDigits : ∀ c ∈ digits, isDigit 10 c = true)
      (noZero : digits.head? = some '0' → digits = ['0']) : PartSpelling digits (ofDigits 10 digits)
  | octal {digits : Str} (nonempty : digits ≠ []) (isDigits : ∀ c ∈ digits, isDigit 8 c = true) :
      PartSpelling ('0' :: digits) (ofDigits 8 digits)
  | hex {x : Char} {digits : Str} (isX : x = 'x' ∨ x = 'X') (nonempty : digits ≠ [])
      (isDigits : ∀ c ∈ digits, isDigit 16 c = true) : PartSpelling ('0' :: x :: digits) (ofDigits 16 digits)

/-- The last number fills the octets that the numbers before it leave. -/
inductive InetSpelling : Str → Ipv4Addr → Prop where
  | one {s : Str} {v : Nat} (part : PartSpelling s v) (small : v < 256 ^ 4) :
      InetSpelling s ⟨v / 256 ^ 3, v / 256 ^ 2 % 256, v / 256 % 256, v % 256⟩
  | two {s t : Str} {a v : Nat} (first : PartSpelling s a) (octet : a < 256) (part : PartSpelling t v)
      (small : v < 256 ^ 3) : InetSpelling (s ++ '.' :: t) ⟨a, v / 256 ^ 2, v / 256 % 256, v % 256⟩
  | three {s t u : Str} {a b v : Nat} (first : PartSpelling s a) (octet : a < 256) (second : PartSpelling t b)
      (octet' : b < 256) (part : PartSpelling u v) (small : v < 256 ^ 2) :
      InetSpelling (s ++ '.' :: (t ++ '.' :: u)) ⟨a, b, v / 256, v % 256⟩
  | four {s t u w : Str} {a b c d : Nat} (first : PartSpelling s a) (octet : a < 256) (second : PartSpelling t b)
      (octet' : b < 256) (third : PartSpelling u c) (octet'' : c < 256) (part : PartSpelling w d) (small : d < 256) :
      InetSpelling (s ++ '.' :: (t ++ '.' :: (u ++ '.' :: w))) ⟨a, b, c, d⟩

/-! ## Digits -/

/-- A digit by the number of its character. -/
theorem digit?_eq (radix : Nat) (c : Char) :
    digit? radix c =
      let v := if 48 ≤ c.toNat ∧ c.toNat ≤ 57 then c.toNat - 48
        else if 97 ≤ c.toNat ∧ c.toNat ≤ 122 then c.toNat - 97 + 10
        else if 65 ≤ c.toNat ∧ c.toNat ≤ 90 then c.toNat - 65 + 10
        else radix
      if v < radix then some v else none := rfl

theorem digit?_toLower (radix : Nat) (c : Char) : digit? radix c.toLower = digit? radix c := by
  rw [digit?_eq, digit?_eq, Url.toNat_toLower]
  by_cases hupper : 65 ≤ c.toNat ∧ c.toNat ≤ 90
  · have hlower : ¬(48 ≤ c.toNat + 32 ∧ c.toNat + 32 ≤ 57) := by omega
    have hletter : 97 ≤ c.toNat + 32 ∧ c.toNat + 32 ≤ 122 := by omega
    have hdigit : ¬(48 ≤ c.toNat ∧ c.toNat ≤ 57) := by omega
    have hsmall : ¬(97 ≤ c.toNat ∧ c.toNat ≤ 122) := by omega
    have hvalue : c.toNat + 32 - 97 + 10 = c.toNat - 65 + 10 := by omega
    simp only [if_pos hupper, if_neg hlower, if_pos hletter, if_neg hdigit, if_neg hsmall, hvalue]
  · simp only [if_neg hupper]

theorem isDigit_toLower (radix : Nat) (c : Char) : isDigit radix c.toLower = isDigit radix c := by
  rw [isDigit, digit?_toLower, isDigit]

theorem ofDigits_asciiLower (radix : Nat) (digits : Str) :
    ofDigits radix (asciiLower digits) = ofDigits radix digits := by
  unfold ofDigits asciiLower
  rw [List.foldl_map]
  simp only [digit?_toLower]

/-- What a digit is not. -/
theorem digit_range {radix : Nat} {c : Char} (hradix : radix ≤ 16) (h : isDigit radix c = true) :
    (48 ≤ c.toNat ∧ c.toNat ≤ 57) ∨ (97 ≤ c.toNat ∧ c.toNat ≤ 102) ∨ (65 ≤ c.toNat ∧ c.toNat ≤ 70) := by
  rw [isDigit, digit?_eq] at h
  dsimp only at h
  split_ifs at h <;> first | omega | cases h

theorem decimal_range {radix : Nat} {c : Char} (hradix : radix ≤ 10) (h : isDigit radix c = true) :
    48 ≤ c.toNat ∧ c.toNat ≤ 57 := by
  rw [isDigit, digit?_eq] at h
  dsimp only at h
  split_ifs at h <;> first | omega | cases h

theorem asciiLower_decimal {radix : Nat} {digits : Str} (hradix : radix ≤ 10)
    (h : ∀ c ∈ digits, isDigit radix c = true) : asciiLower digits = digits := by
  have hsame : ∀ c ∈ digits, c.toLower = c := fun c hc => by
    have hrange := decimal_range hradix (h c hc)
    refine Char.toNat_inj.1 ?_
    rw [Url.toNat_toLower, if_neg (by omega)]
  unfold asciiLower
  rw [List.map_congr_left hsame, List.map_id']

/-! ## Reading a number -/

theorem PartSpelling.asciiLower {s : Str} {v : Nat} (h : PartSpelling s v) :
    PartSpelling (asciiLower s) v := by
  cases h with
  | decimal hne hdigits hzero =>
      rw [asciiLower_decimal le_rfl hdigits]
      exact .decimal hne hdigits hzero
  | @octal digits hne hdigits =>
      have hsame : Observe.asciiLower ('0' :: digits) = '0' :: digits := by
        rw [Observe.asciiLower, List.map_cons, ← Observe.asciiLower, asciiLower_decimal (by omega) hdigits]
        rfl
      rw [hsame]
      exact .octal hne hdigits
  | @hex x digits hx hne hdigits =>
      have hlower : Observe.asciiLower ('0' :: x :: digits) = '0' :: 'x' :: Observe.asciiLower digits := by
        obtain rfl | rfl := hx <;> rfl
      rw [hlower, ← ofDigits_asciiLower]
      refine .hex (.inl rfl) (by simpa [Observe.asciiLower] using hne) fun c hc => ?_
      obtain ⟨d, hd, rfl⟩ := List.mem_map.1 hc
      rw [isDigit_toLower]
      exact hdigits d hd

/-- The radix and the digits of a part. -/
def partDigits (part : Str) : Nat × Str :=
  match part with
  | '0' :: 'x' :: rest => (16, rest)
  | '0' :: 'X' :: rest => (16, rest)
  | '0' :: c :: rest => (8, c :: rest)
  | _ => (10, part)

theorem parseInetPart_eq (part : Str) :
    parseInetPart part =
      if (partDigits part).2 = [] || !(partDigits part).2.all (isDigit (partDigits part).1) then none
      else if ofDigits (partDigits part).1 (partDigits part).2 < 2 ^ 32 then
        some (ofDigits (partDigits part).1 (partDigits part).2)
      else none := rfl

theorem PartSpelling.digits {s : Str} {v : Nat} (h : PartSpelling s v) :
    (partDigits s).2 ≠ [] ∧ (∀ c ∈ (partDigits s).2, isDigit (partDigits s).1 c = true) ∧
      ofDigits (partDigits s).1 (partDigits s).2 = v := by
  cases h with
  | decimal hne hdigits hzero =>
      have hplain : partDigits s = (10, s) := by
        unfold partDigits
        split
        · cases hzero rfl
        · cases hzero rfl
        · cases hzero rfl
        · rfl
      rw [hplain]
      exact ⟨hne, hdigits, rfl⟩
  | @octal digits hne hdigits =>
      obtain ⟨d, digits, rfl⟩ := List.exists_cons_of_ne_nil hne
      have hrange := decimal_range (by omega : 8 ≤ 10) (hdigits d List.mem_cons_self)
      have hoctal : partDigits ('0' :: d :: digits) = (8, d :: digits) := by
        unfold partDigits
        split
        · rename_i heq
          obtain ⟨rfl, -⟩ := List.cons.inj (List.cons.inj heq).2
          exact absurd hrange (by decide)
        · rename_i heq
          obtain ⟨rfl, -⟩ := List.cons.inj (List.cons.inj heq).2
          exact absurd hrange (by decide)
        · rename_i heq
          rw [← (List.cons.inj heq).2]
        · rename_i hother
          exact absurd rfl (hother d digits)
      rw [hoctal]
      exact ⟨hne, hdigits, rfl⟩
  | @hex x digits hx hne hdigits =>
      obtain rfl | rfl := hx
      · exact ⟨hne, hdigits, rfl⟩
      · exact ⟨hne, hdigits, rfl⟩

/-- A spelled number is read as that number. -/
theorem parseInetPart_of_spelling {s : Str} {v : Nat} (h : PartSpelling s v) (hv : v < 2 ^ 32) :
    parseInetPart s = some v := by
  obtain ⟨hne, hdigits, rfl⟩ := h.digits
  have hall : (partDigits s).2.all (isDigit (partDigits s).1) = true := List.all_eq_true.2 hdigits
  rw [parseInetPart_eq, hall]
  simpa [hne] using hv

theorem isDigit_mono {radix radix' : Nat} {c : Char} (hle : radix ≤ radix') (hsmall : radix ≤ 10)
    (h : isDigit radix c = true) : isDigit radix' c = true := by
  have hrange := decimal_range hsmall h
  rw [isDigit, digit?_eq] at h ⊢
  simp only [if_pos hrange] at h ⊢
  split_ifs at h with hvalue
  · rw [if_pos (by omega)]
    rfl
  · cases h

theorem PartSpelling.range {s : Str} {v : Nat} (h : PartSpelling s v) :
    s ≠ [] ∧ ∀ c ∈ s, c = 'x' ∨ c = 'X' ∨ isDigit 16 c = true := by
  have hzero : isDigit 16 '0' = true := by decide
  cases h with
  | decimal hne hdigits hzero =>
      exact ⟨hne, fun c hc => .inr (.inr (isDigit_mono (by omega) le_rfl (hdigits c hc)))⟩
  | octal hne hdigits =>
      refine ⟨List.cons_ne_nil _ _, fun c hc => ?_⟩
      obtain rfl | hc := List.mem_cons.1 hc
      · exact .inr (.inr hzero)
      · exact .inr (.inr (isDigit_mono (by omega) (by omega) (hdigits c hc)))
  | @hex x digits hx hne hdigits =>
      refine ⟨List.cons_ne_nil _ _, fun c hc => ?_⟩
      obtain rfl | hc := List.mem_cons.1 hc
      · exact .inr (.inr hzero)
      · obtain rfl | hc := List.mem_cons.1 hc
        · obtain rfl | rfl := hx
          · exact .inl rfl
          · exact .inr (.inl rfl)
        · exact .inr (.inr (hdigits c hc))

theorem PartSpelling.dot_notMem {s : Str} {v : Nat} (h : PartSpelling s v) : '.' ∉ s := by
  intro hdot
  obtain hx | hx | hdigit := h.range.2 '.' hdot
  · exact absurd hx (by decide)
  · exact absurd hx (by decide)
  · exact absurd hdigit (by decide)

/-! ## Numbers between dots -/

/-- Texts with a dot behind each, and a last one. -/
def dotted (leading : List Str) (last : Str) : Str := leading.foldr (fun s rest => s ++ '.' :: rest) last

/-- The address of numbers of an octet each, and of a number that fills the rest. -/
def inetAddr (leading : List Nat) (v : Nat) : Ipv4Addr :=
  let addr := leading.foldl (fun n a => n * 256 + a) 0 * 256 ^ (4 - leading.length) + v
  ⟨addr / 256 ^ 3 % 256, addr / 256 ^ 2 % 256, addr / 256 % 256, addr % 256⟩

/-- Digits weighed by their places, and read one after another. -/
theorem sum_places (radix n : Nat) (leading : List Nat) (k : Nat) (h : k + leading.length ≤ 3) :
    n * radix ^ (4 - k) + ((leading.zipIdx k).map fun (v, i) => v * radix ^ (3 - i)).sum =
      leading.foldl (fun n a => n * radix + a) n * radix ^ (4 - k - leading.length) := by
  induction leading generalizing n k with
  | nil => simp
  | cons a leading ih =>
      rw [List.length_cons] at h
      have hplace : 4 - k = 3 - k + 1 := by omega
      have hnext : 4 - (k + 1) = 3 - k := by omega
      have hrest : 3 - k - leading.length = 4 - k - (leading.length + 1) := by omega
      have hsum := ih (n * radix + a) (k + 1) (by omega)
      rw [hnext, hrest] at hsum
      rw [List.zipIdx_cons, List.map_cons, List.sum_cons, List.foldl_cons, List.length_cons, ← hsum, hplace]
      ring

theorem last_octet {x y : Nat} (h : y < 256) : (x * 256 + y) / 256 = x ∧ (x * 256 + y) % 256 = y := by
  omega

/-- The octets of a number, from the last one up. -/
theorem octets_eq {a b c d n : Nat} (ha : a < 256) (hb : b < 256) (hc : c < 256) (hd : d < 256)
    (hn : n = ((a * 256 + b) * 256 + c) * 256 + d) :
    (⟨n / 256 ^ 3 % 256, n / 256 ^ 2 % 256, n / 256 % 256, n % 256⟩ : Ipv4Addr) = ⟨a, b, c, d⟩ := by
  have h₁ : n / 256 = (a * 256 + b) * 256 + c := by rw [hn, (last_octet hd).1]
  have h₂ : n / 256 ^ 2 = a * 256 + b := by rw [pow_succ, pow_one, ← Nat.div_div_eq_div_mul, h₁, (last_octet hc).1]
  have h₃ : n / 256 ^ 3 = a := by rw [pow_succ, ← Nat.div_div_eq_div_mul, h₂, (last_octet hb).1]
  rw [h₁, h₂, h₃, hn, (last_octet hd).2, (last_octet hc).2, (last_octet hb).2, Nat.mod_eq_of_lt ha]

/-- Up to three numbers of an octet each, and a last one. -/
structure Spells (leading : List (Str × Nat)) (last : Str) (v : Nat) : Prop where
  few : leading.length ≤ 3
  octets : ∀ p ∈ leading, PartSpelling p.1 p.2 ∧ p.2 < 256
  part : PartSpelling last v
  small : v < 256 ^ (4 - leading.length)

theorem InetSpelling.spells {s : Str} {ip : Ipv4Addr} (h : InetSpelling s ip) :
    ∃ leading last v, Spells leading last v ∧ s = dotted (leading.map Prod.fst) last ∧
      ip = inetAddr (leading.map Prod.snd) v := by
  cases h with
  | @one s v hpart hsmall =>
      refine ⟨[], s, v, ⟨by simp, by simp, hpart, by simpa using hsmall⟩, rfl, (octets_eq ?_ ?_ ?_ ?_ ?_).symm⟩
      · omega
      · exact Nat.mod_lt _ (by decide)
      · exact Nat.mod_lt _ (by decide)
      · exact Nat.mod_lt _ (by decide)
      · simp
        omega
  | @two s t a v hfirst hoctet hpart hsmall =>
      refine ⟨[(s, a)], t, v, ⟨by simp, by simp [hfirst, hoctet], hpart, by simpa using hsmall⟩, rfl,
        (octets_eq hoctet ?_ ?_ ?_ ?_).symm⟩
      · omega
      · exact Nat.mod_lt _ (by decide)
      · exact Nat.mod_lt _ (by decide)
      · simp
        omega
  | @three s t u a b v hfirst hoctet hsecond hoctet' hpart hsmall =>
      refine ⟨[(s, a), (t, b)], u, v,
        ⟨by simp, by simp [hfirst, hoctet, hsecond, hoctet'], hpart, by simpa using hsmall⟩, rfl,
        (octets_eq hoctet hoctet' ?_ ?_ ?_).symm⟩
      · omega
      · exact Nat.mod_lt _ (by decide)
      · simp
        omega
  | @four s t u w a b c d hfirst hoctet hsecond hoctet' hthird hoctet'' hpart hsmall =>
      refine ⟨[(s, a), (t, b), (u, c)], w, d,
        ⟨by simp, by simp [hfirst, hoctet, hsecond, hoctet', hthird, hoctet''], hpart, by simpa using hsmall⟩, rfl,
        (octets_eq hoctet hoctet' hoctet'' hsmall ?_).symm⟩
      simp

theorem splitOn_dotted {leading : List Str} {last : Str} (hleading : ∀ s ∈ leading, '.' ∉ s) (hlast : '.' ∉ last) :
    (dotted leading last).splitOn '.' = leading ++ [last] := by
  induction leading with
  | nil => exact List.splitOn_eq_singleton hlast
  | cons s leading ih =>
      rw [List.forall_mem_cons] at hleading
      rw [dotted, List.foldr_cons, ← dotted, List.splitOn_append_cons_self, List.splitOn_eq_singleton hleading.1,
        ih hleading.2]
      rfl

theorem mem_dotted {leading : List Str} {last : Str} {c : Char} (h : c ∈ dotted leading last) :
    c = '.' ∨ c ∈ last ∨ ∃ s ∈ leading, c ∈ s := by
  induction leading with
  | nil => exact .inr (.inl h)
  | cons s leading ih =>
      rw [dotted, List.foldr_cons, ← dotted, List.mem_append, List.mem_cons] at h
      obtain hs | rfl | hrest := h
      · exact .inr (.inr ⟨s, List.mem_cons_self, hs⟩)
      · exact .inl rfl
      · obtain hdot | hlast | ⟨t, ht, hc⟩ := ih hrest
        · exact .inl hdot
        · exact .inr (.inl hlast)
        · exact .inr (.inr ⟨t, List.mem_cons_of_mem s ht, hc⟩)

theorem dotted_eq_append (leading : List Str) (last : Str) : ∃ before, dotted leading last = before ++ last := by
  induction leading with
  | nil => exact ⟨[], rfl⟩
  | cons s leading ih =>
      obtain ⟨before, hbefore⟩ := ih
      refine ⟨s ++ '.' :: before, ?_⟩
      rw [dotted, List.foldr_cons, ← dotted, hbefore, List.append_assoc, List.cons_append]

/-- The numbers of a text, and the address they make. -/
theorem parseIpv4Shorthand_of_values {s : Str} {leading : List Nat} {v : Nat}
    (hvalues : (s.splitOn '.').mapM parseInetPart = some (leading ++ [v])) (hlen : leading.length ≤ 3)
    (hleading : ∀ a ∈ leading, a < 256) (hv : v < 256 ^ (4 - leading.length)) :
    parseIpv4Shorthand s = some (inetAddr leading v) := by
  have hmany : ¬4 < (leading ++ [v]).length := by
    rw [List.length_append, List.length_singleton]
    omega
  have hany : leading.any (0xff < ·) = false := by
    rw [List.any_eq_false]
    intro a ha
    have := hleading a ha
    simp only [decide_eq_true_eq]
    omega
  have hsum := sum_places 256 0 leading 0 (by omega)
  rw [Nat.zero_mul, Nat.zero_add, Nat.sub_zero] at hsum
  unfold parseIpv4Shorthand inetAddr
  rw [hvalues, ← hsum]
  simp only [Option.bind_eq_bind, Option.bind_some, if_neg hmany, List.getLast?_concat, List.dropLast_concat, hany,
    if_neg (not_le.2 hv)]
  simp

/-- The spelled numbers are read, each as itself. -/
theorem Spells.values {leading : List (Str × Nat)} {last : Str} {v : Nat} (h : Spells leading last v) :
    (leading.map Prod.fst ++ [last]).mapM parseInetPart = some (leading.map Prod.snd ++ [v]) := by
  obtain ⟨-, hoctets, hpart, hsmall⟩ := h
  have hv : v < 2 ^ 32 := hsmall.trans_le (Nat.pow_le_pow_right (by norm_num) (Nat.sub_le 4 _))
  clear hsmall
  induction leading with
  | nil => simp [parseInetPart_of_spelling hpart hv]
  | cons p leading ih =>
      rw [List.forall_mem_cons] at hoctets
      obtain ⟨⟨hp, hoctet⟩, hoctets⟩ := hoctets
      simp [parseInetPart_of_spelling hp (hoctet.trans (by norm_num)), ih hoctets]

theorem parseIpv4Shorthand_of_spelling {s : Str} {ip : Ipv4Addr} (h : InetSpelling s ip) :
    parseIpv4Shorthand s = some ip := by
  obtain ⟨leading, last, v, hspells, rfl, rfl⟩ := h.spells
  have hdots : ∀ s ∈ leading.map Prod.fst, '.' ∉ s := by
    intro s hs
    obtain ⟨p, hp, rfl⟩ := List.mem_map.1 hs
    exact (hspells.octets p hp).1.dot_notMem
  have hoctets : ∀ a ∈ leading.map Prod.snd, a < 256 := by
    intro a ha
    obtain ⟨p, hp, rfl⟩ := List.mem_map.1 ha
    exact (hspells.octets p hp).2
  refine parseIpv4Shorthand_of_values ?_ (by simpa using hspells.few) hoctets (by simpa using hspells.small)
  rw [splitOn_dotted hdots hspells.part.dot_notMem]
  exact hspells.values

/-! ## The canonical spelling -/

theorem readNumber_eq {bound n : Nat} {t rest : Str} (h : readNumber 10 3 bound false t = some (n, rest)) :
    ∃ digits, t = digits ++ rest ∧ PartSpelling digits n ∧ n < bound := by
  unfold readNumber at h
  dsimp only at h
  split_ifs at h with hmany hzero hsmall
  · obtain ⟨rfl, rfl⟩ := Prod.mk.inj (Option.some.inj h)
    refine ⟨t.takeWhile (isDigit 10), (List.takeWhile_append_dropWhile).symm, .decimal ?_ ?_ ?_, hsmall⟩
    · simp only [Bool.or_eq_true, decide_eq_true_eq, not_or] at hmany
      exact hmany.1
    · exact fun c hc => List.mem_takeWhile_imp hc
    · intro hhead
      have hone : (t.takeWhile (isDigit 10)).length ≤ 1 := by
        by_contra hlong
        exact hzero (by simp [hhead, not_le.1 hlong])
      obtain ⟨d, digits, hdigits⟩ := List.exists_cons_of_ne_nil (List.ne_nil_of_mem (List.mem_of_head? hhead))
      rw [hdigits] at hone hhead ⊢
      obtain rfl : d = '0' := Option.some.inj hhead
      rw [List.length_eq_zero_iff.1 (by simpa using hone : digits.length = 0)]

theorem readGivenChar_eq {c : Char} {t rest : Str} (h : readGivenChar c t = some rest) : t = c :: rest := by
  cases t with
  | nil => cases h
  | cons d t =>
      rw [readGivenChar] at h
      split_ifs at h with hd
      rw [hd, Option.some.inj h]

theorem readIpv4_eq {t rest : Str} {ip : Ipv4Addr} (h : readIpv4 t = some (ip, rest)) :
    ∃ s, t = s ++ rest ∧ InetSpelling s ip := by
  simp only [readIpv4, Option.bind_eq_bind, Option.bind_eq_some_iff, Prod.exists] at h
  obtain ⟨a, t₁, ha, t₂, hdot₁, b, t₃, hb, t₄, hdot₂, c, t₅, hc, t₆, hdot₃, d, t₇, hd, hip⟩ := h
  obtain ⟨rfl, rfl⟩ := Prod.mk.inj (Option.some.inj hip)
  obtain ⟨s₁, rfl, hs₁, ha'⟩ := readNumber_eq ha
  obtain rfl := readGivenChar_eq hdot₁
  obtain ⟨s₂, rfl, hs₂, hb'⟩ := readNumber_eq hb
  obtain rfl := readGivenChar_eq hdot₂
  obtain ⟨s₃, rfl, hs₃, hc'⟩ := readNumber_eq hc
  obtain rfl := readGivenChar_eq hdot₃
  obtain ⟨s₄, rfl, hs₄, hd'⟩ := readNumber_eq hd
  exact ⟨_, by simp, .four hs₁ ha' hs₂ hb' hs₃ hc' hs₄ hd'⟩

theorem readGivenChar_of_notMem {c : Char} {t : Str} (h : c ∉ t) : readGivenChar c t = none := by
  cases t with
  | nil => rfl
  | cons d t => rw [readGivenChar, if_neg (List.ne_of_not_mem_cons h).symm]

theorem readGroups_of_notMem {t : Str} (limit : Nat) (h : ':' ∉ t) : readGroups limit false t = ([], false, t) := by
  cases limit with
  | zero => rfl
  | succ limit => simp [readGroups, readGivenChar_of_notMem h]

/-- A text without a colon is no IPv6 address: a first group may be read, and then a colon has to come. -/
theorem readIpv6_of_notMem {t : Str} (hcolon : ':' ∉ t) (hv4 : readIpv4 t = none) : readIpv6 t = none := by
  have hgroups : ∃ head rest, readGroups 8 true t = (head, false, rest) ∧ head.length ≤ 1 ∧ ':' ∉ rest := by
    cases hread : readNumber 16 4 65536 true t with
    | none => exact ⟨[], t, by simp [readGroups, hv4, hread], Nat.zero_le _, hcolon⟩
    | some r =>
        obtain ⟨n, rest⟩ := r
        have hrest : ':' ∉ rest := by
          have hdrop : rest = t.dropWhile (isDigit 16) := by
            unfold readNumber at hread
            dsimp only at hread
            split_ifs at hread
            exact (Prod.mk.inj (Option.some.inj hread)).2.symm
          rw [hdrop]
          exact fun hmem => hcolon ((List.dropWhile_sublist _).subset hmem)
        refine ⟨[n], rest, ?_, le_rfl, hrest⟩
        rw [readGroups]
        simp [hv4, hread, readGroups_of_notMem 7 hrest]
  obtain ⟨head, rest, hread, hlen, hrest⟩ := hgroups
  have hfew : head.length ≠ 8 := by omega
  simp [readIpv6, hread, readGivenChar_of_notMem hrest, hfew]

/-! ## The characters of a spelling -/

theorem InetSpelling.parts {s : Str} {ip : Ipv4Addr} (h : InetSpelling s ip) :
    (∀ c ∈ s, c = '.' ∨ c = 'x' ∨ c = 'X' ∨ isDigit 16 c = true) ∧
      ∃ before last, s = before ++ last ∧ last ≠ [] ∧ '.' ∉ last := by
  obtain ⟨leading, last, v, hspells, rfl, -⟩ := h.spells
  obtain ⟨before, hbefore⟩ := dotted_eq_append (leading.map Prod.fst) last
  refine ⟨fun c hc => ?_, before, last, hbefore, hspells.part.range.1, hspells.part.dot_notMem⟩
  obtain rfl | hc | ⟨s, hs, hc⟩ := mem_dotted hc
  · exact .inl rfl
  · exact .inr (hspells.part.range.2 c hc)
  · obtain ⟨p, hp, rfl⟩ := List.mem_map.1 hs
    exact .inr ((hspells.octets p hp).1.range.2 c hc)

/-- No character of a spelling is one of these. -/
theorem InetSpelling.notMem {s : Str} {ip : Ipv4Addr} (h : InetSpelling s ip) {c : Char}
    (hc : c ≠ '.' ∧ c ≠ 'x' ∧ c ≠ 'X' ∧ isDigit 16 c = false) : c ∉ s := by
  intro hmem
  obtain hdot | hx | hX | hdigit := h.parts.1 c hmem
  · exact hc.1 hdot
  · exact hc.2.1 hx
  · exact hc.2.2.1 hX
  · simp [hc.2.2.2] at hdigit

theorem InetSpelling.asciiLower {s : Str} {ip : Ipv4Addr} (h : InetSpelling s ip) :
    InetSpelling (asciiLower s) ip := by
  have happend : ∀ a b : Str,
      Observe.asciiLower (a ++ '.' :: b) = Observe.asciiLower a ++ '.' :: Observe.asciiLower b :=
    fun a b => by simp [Observe.asciiLower]
  cases h with
  | one hpart hsmall => exact .one hpart.asciiLower hsmall
  | two hfirst hoctet hpart hsmall =>
      rw [happend]
      exact .two hfirst.asciiLower hoctet hpart.asciiLower hsmall
  | three hfirst hoctet hsecond hoctet' hpart hsmall =>
      rw [happend, happend]
      exact .three hfirst.asciiLower hoctet hsecond.asciiLower hoctet' hpart.asciiLower hsmall
  | four hfirst hoctet hsecond hoctet' hthird hoctet'' hpart hsmall =>
      rw [happend, happend, happend]
      exact .four hfirst.asciiLower hoctet hsecond.asciiLower hoctet' hthird.asciiLower hoctet'' hpart.asciiLower
        hsmall

/-- A spelling is no other address. -/
theorem parseIpAddr_of_spelling {s : Str} {ip : Ipv4Addr} (h : InetSpelling s ip) :
    parseIpAddr s = none ∨ parseIpAddr s = some (.v4 ip) := by
  cases hread : readIpv4 s with
  | none =>
      left
      rw [parseIpAddr, hread, readIpv6_of_notMem (h.notMem (by decide)) hread]
  | some r =>
      obtain ⟨ip', rest⟩ := r
      cases rest with
      | nil =>
          right
          obtain ⟨t, hs, ht⟩ := readIpv4_eq hread
          rw [List.append_nil] at hs
          subst hs
          have hsame := (parseIpv4Shorthand_of_spelling ht).symm.trans (parseIpv4Shorthand_of_spelling h)
          rw [parseIpAddr, hread, Option.some.inj hsame]
      | cons c rest =>
          left
          rw [parseIpAddr, hread]

theorem parseIpLiteral_of_spelling {s : Str} {ip : Ipv4Addr} (h : InetSpelling s ip) :
    parseIpLiteral s = some (.canonical (.v4 ip)) ∨ parseIpLiteral s = some (.shorthand ip) := by
  have hbrackets : stripBrackets s = s := by
    have hnot := h.notMem (by decide : '[' ≠ '.' ∧ '[' ≠ 'x' ∧ '[' ≠ 'X' ∧ isDigit 16 '[' = false)
    unfold stripBrackets
    split
    · exact absurd List.mem_cons_self hnot
    · rfl
  rw [parseIpLiteral, hbrackets]
  obtain hnone | hsome := parseIpAddr_of_spelling h
  · exact .inr (by rw [hnone, parseIpv4Shorthand_of_spelling h]; rfl)
  · exact .inl (by rw [hsome])

/-! ## The verdict -/

/-- The host that every check of an authority reads. -/
def normalHost (host : Str) : Str := (asciiLower (Text.trim host)).rdropWhile (· == '.')

theorem checkAuthority_eq (host : Str) (port : Nat) (allow : AllowList) :
    checkAuthority host port allow =
      if normalHost host = [] then .deny .badHostname
      else if !defaultAllowedPorts.contains port && !allow.has (normalHost host) port then .deny .badPort
      else if metadataHosts.contains (normalHost host) then .deny .cloudMetadata
      else
        match parseIpLiteral (normalHost host) with
        | some (.canonical ip) => if allow.has (normalHost host) port then .allow else classifyIp ip
        | some (.shorthand ip) =>
            if allow.has (normalHost host) port then .allow
            else if !(classifyV4 ip).isAllowed then classifyV4 ip
            else checkHostname (normalHost host) (allow.has (normalHost host) port)
        | none => checkHostname (normalHost host) (allow.has (normalHost host) port) := rfl

/-- The verdict were a shorthand no address: it would be a name like any other. -/
def checkUninterpreted (host : Str) (port : Nat) (allow : AllowList) : Verdict :=
  if normalHost host = [] then .deny .badHostname
  else if !defaultAllowedPorts.contains port && !allow.has (normalHost host) port then .deny .badPort
  else if metadataHosts.contains (normalHost host) then .deny .cloudMetadata
  else
    match parseIpAddr (stripBrackets (normalHost host)) with
    | some ip => if allow.has (normalHost host) port then .allow else classifyIp ip
    | none => checkHostname (normalHost host) (allow.has (normalHost host) port)

theorem isWhitespace_of_digit {c : Char} (h : isDigit 16 c = true) : Text.isWhitespace c = false := by
  have hrange := digit_range le_rfl h
  simp only [Text.isWhitespace, Bool.or_eq_false_iff, Bool.and_eq_false_iff, decide_eq_false_iff_not,
    beq_eq_false_iff_ne]
  omega

theorem normalHost_of_spelling {s : Str} {ip : Ipv4Addr} (h : InetSpelling s ip) : normalHost s = asciiLower s := by
  have hplain : ∀ c ∈ s, Text.isWhitespace c = false := by
    intro c hc
    obtain rfl | rfl | rfl | hdigit := h.parts.1 c hc
    · decide
    · decide
    · decide
    · exact isWhitespace_of_digit hdigit
  have htrim : Text.trim s = s :=
    Text.trim_of_noWs (fun c hc => hplain c (List.mem_of_head? hc)) fun c hc => hplain c (List.mem_of_getLast? hc)
  obtain ⟨before, last, hs, hne, hdot⟩ := h.asciiLower.parts.2
  rw [normalHost, htrim, List.rdropWhile_eq_self_iff]
  intro hne' hlast
  -- The last character belongs to the last part, where no dot is.
  have hmem : (asciiLower s).getLast hne' ∈ last := by
    simp only [hs, List.getLast_append_of_ne_nil _ hne]
    exact List.getLast_mem hne
  rw [beq_iff_eq.1 hlast] at hmem
  exact hdot hmem

/-- Off the allow list, an authority is denied once its host is read as an address that is. -/
theorem checkAuthority_of_literal {host : Str} {port : Nat} {allow : AllowList}
    (hallow : allow.has (normalHost host) port = false) {ip : IpAddr} (hdenied : (classifyIp ip).isAllowed = false)
    (h : parseIpLiteral (normalHost host) = some (.canonical ip) ∨
      ∃ v4, ip = .v4 v4 ∧ parseIpLiteral (normalHost host) = some (.shorthand v4)) :
    (checkAuthority host port allow).isAllowed = false := by
  rw [checkAuthority_eq]
  simp only [hallow, Bool.false_eq_true, if_false]
  split_ifs
  · rfl
  · rfl
  · rfl
  · obtain h | ⟨v4, rfl, h⟩ := h
    · rw [h]
      exact hdenied
    · have hv4 : (classifyV4 v4).isAllowed = false := hdenied
      simp only [h, hv4, Bool.not_false, if_true]

/-! ## Addresses in IPv6 addresses -/

/-- The two segments that hold an address. -/
structure Holds (hi lo : Nat) (ip : Ipv4Addr) : Prop where
  octets : ip.a < 256 ∧ ip.b < 256 ∧ ip.c < 256 ∧ ip.d < 256
  high : hi = ip.a * 256 + ip.b
  low : lo = ip.c * 256 + ip.d

/-- The forms that hold an IPv4 address: mapped, compatible, NAT64 and 6to4. -/
inductive Embeds : Ipv6Addr → Ipv4Addr → Prop where
  | mapped {hi lo : Nat} {ip : Ipv4Addr} (holds : Holds hi lo ip) : Embeds ⟨0, 0, 0, 0, 0, 0xffff, hi, lo⟩ ip
  | compatible {hi lo : Nat} {ip : Ipv4Addr} (holds : Holds hi lo ip) : Embeds ⟨0, 0, 0, 0, 0, 0, hi, lo⟩ ip
  | nat64 {s2 s3 s4 s5 hi lo : Nat} {ip : Ipv4Addr} (holds : Holds hi lo ip) :
      Embeds ⟨0x64, 0xff9b, s2, s3, s4, s5, hi, lo⟩ ip
  | sixToFour {hi lo s3 s4 s5 s6 s7 : Nat} {ip : Ipv4Addr} (holds : Holds hi lo ip) :
      Embeds ⟨0x2002, hi, lo, s3, s4, s5, s6, s7⟩ ip

theorem Holds.embedded {hi lo : Nat} {ip : Ipv4Addr} (h : Holds hi lo ip) : embeddedV4 hi lo = ip := by
  obtain ⟨⟨ha, hb, hc, hd⟩, rfl, rfl⟩ := h
  obtain ⟨a, b, c, d⟩ := ip
  have hmask : ∀ n : Nat, n &&& 0xff = n % 256 := fun n => Nat.and_two_pow_sub_one_eq_mod n 8
  simp only [embeddedV4, hmask, Nat.shiftRight_eq_div_pow, Ipv4Addr.mk.injEq] at *
  omega

theorem denied_ite {c : Prop} [Decidable c] {u v : Verdict} (hu : c → u.isAllowed = false)
    (hv : ¬c → v.isAllowed = false) : (if c then u else v).isAllowed = false := by
  by_cases h : c
  · rw [if_pos h]
    exact hu h
  · rw [if_neg h]
    exact hv h

/-- What is not denied before the embedded addresses are looked at is decided by them. -/
theorem classifyV6_denied {ip6 : Ipv6Addr}
    (h : ip6 ≠ ⟨0, 0, 0, 0, 0, 0, 0, 0⟩ →
      (if [ip6.s0, ip6.s1, ip6.s2, ip6.s3, ip6.s4, ip6.s5].all (· = 0) && !(ip6.s6 = 0 && ip6.s7 = 0) then
          classifyV4 (embeddedV4 ip6.s6 ip6.s7)
        else if ip6.s0 = 0x0064 && ip6.s1 = 0xff9b then classifyV4 (embeddedV4 ip6.s6 ip6.s7)
        else if ip6.s0 = 0x2002 then classifyV4 (embeddedV4 ip6.s1 ip6.s2)
        else .allow).isAllowed = false) : (classifyV6 ip6).isAllowed = false :=
  denied_ite (fun _ => rfl) fun hsome => denied_ite (fun _ => rfl) fun _ => denied_ite (fun _ => rfl) fun _ =>
    denied_ite (fun _ => rfl) fun _ => denied_ite (fun _ => rfl) fun _ => denied_ite (fun _ => rfl) fun _ => h hsome

/-- The forms that are no mapped ones are told from each other by their first segments. -/
theorem classifyV6_embeds {ip6 : Ipv6Addr} {ip : Ipv4Addr} (h : Embeds ip6 ip) (hplain : ip6.toIpv4Mapped = none)
    (hdenied : (classifyV4 ip).isAllowed = false) : (classifyV6 ip6).isAllowed = false := by
  refine classifyV6_denied fun hsome => ?_
  cases h with
  | mapped holds => cases hplain
  | @compatible hi lo _ holds =>
      have hnot : ¬(hi = 0 ∧ lo = 0) := by
        rintro ⟨rfl, rfl⟩
        exact hsome rfl
      rw [holds.embedded]
      exact denied_ite (fun _ => hdenied) fun hzero => absurd (by simpa [imp_iff_not_or] using hnot) hzero
  | nat64 holds =>
      rw [holds.embedded]
      exact denied_ite (fun _ => hdenied) fun _ => denied_ite (fun _ => hdenied) fun hother => absurd rfl hother
  | sixToFour holds =>
      rw [holds.embedded]
      exact denied_ite (fun hzero => by simp at hzero) fun _ => denied_ite (fun hother => by simp at hother)
        fun _ => denied_ite (fun _ => hdenied) fun hother => absurd rfl hother

theorem classifyIp_embeds {ip6 : Ipv6Addr} {ip : Ipv4Addr} (h : Embeds ip6 ip)
    (hdenied : (classifyV4 ip).isAllowed = false) : (classifyIp (.v6 ip6)).isAllowed = false := by
  cases hmapped : ip6.toIpv4Mapped with
  | none =>
      rw [classifyIp, hmapped]
      exact classifyV6_embeds h hmapped hdenied
  | some v4 =>
      cases h with
      | mapped holds => simpa [classifyIp, Ipv6Addr.toIpv4Mapped, holds.embedded] using hdenied
      | compatible holds | nat64 holds | sixToFour holds => simp [Ipv6Addr.toIpv4Mapped] at hmapped

/-! ## One verdict for all spellings -/

theorem checkAuthority_of_uninterpreted {host : Str} {port : Nat} {allow : AllowList}
    (hallow : allow.has (normalHost host) port = false)
    (hdenied : (checkUninterpreted host port allow).isAllowed = false) :
    (checkAuthority host port allow).isAllowed = false := by
  rw [checkAuthority_eq]
  unfold checkUninterpreted at hdenied
  simp only [hallow, Bool.false_eq_true, if_false] at hdenied ⊢
  split_ifs at hdenied ⊢
  · rfl
  · rfl
  · rfl
  · cases hparse : parseIpAddr (stripBrackets (normalHost host)) with
    | some ip =>
        rw [hparse] at hdenied
        simpa only [parseIpLiteral, hparse] using hdenied
    | none =>
        rw [hparse] at hdenied
        cases hshort : parseIpv4Shorthand (stripBrackets (normalHost host)) with
        | none => simpa only [parseIpLiteral, hparse, hshort, Option.map_none] using hdenied
        | some v4 =>
            simp only [parseIpLiteral, hparse, hshort, Option.map_some]
            split_ifs with hv4
            · simpa using hv4
            · exact hdenied

/-- Off the allow list, whatever spells a denied address is denied, and so is whatever spells an IPv6 address that
holds one; and what the policy denies without the reading of shorthands, it denies with it. -/
theorem checkAuthority_spelling {host : Str} {port : Nat} {allow : AllowList}
    (hallow : allow.has (normalHost host) port = false) :
    (∀ ip, (classifyV4 ip).isAllowed = false → InetSpelling host ip →
      (checkAuthority host port allow).isAllowed = false) ∧
    (∀ ip ip6, (classifyV4 ip).isAllowed = false → Embeds ip6 ip →
      parseIpAddr (stripBrackets (normalHost host)) = some (.v6 ip6) →
      (checkAuthority host port allow).isAllowed = false) ∧
    ((checkUninterpreted host port allow).isAllowed = false → (checkAuthority host port allow).isAllowed = false) := by
  refine ⟨fun ip hdenied hspell => ?_, fun ip ip6 hdenied hembeds hparse => ?_,
    checkAuthority_of_uninterpreted hallow⟩
  · refine checkAuthority_of_literal hallow (show (classifyIp (.v4 ip)).isAllowed = false from hdenied) ?_
    rw [normalHost_of_spelling hspell]
    obtain hcanonical | hshorthand := parseIpLiteral_of_spelling hspell.asciiLower
    · exact .inl hcanonical
    · exact .inr ⟨ip, rfl, hshorthand⟩
  · exact checkAuthority_of_literal hallow (classifyIp_embeds hembeds hdenied)
      (.inl (by rw [parseIpLiteral, hparse]))

theorem checkAuthority_spelling_loopback :
    (checkAuthority ['0', 'X', '7', 'F', '.', '1'] 443 [("10.0.0.5".toList, 443)]).isAllowed = false ∧
    (checkAuthority "[::ffff:7f00:1]".toList 443 []).isAllowed = false := by
  have hfirst : PartSpelling ['0', 'X', '7', 'F'] 127 := .hex (.inr rfl) (by decide) (List.all_eq_true.1 (by decide))
  have hlast : PartSpelling ['1'] 1 := .decimal (by decide) (List.all_eq_true.1 (by decide)) (by decide)
  have hspell : InetSpelling ['0', 'X', '7', 'F', '.', '1'] ⟨127, 0, 0, 1⟩ :=
    .two hfirst (by norm_num) hlast (by norm_num)
  exact ⟨(checkAuthority_spelling (by decide +kernel)).1 ⟨127, 0, 0, 1⟩ (by decide) hspell,
    (checkAuthority_spelling (by decide +kernel)).2.1 ⟨127, 0, 0, 1⟩ ⟨0, 0, 0, 0, 0, 0xffff, 0x7f00, 1⟩ (by decide)
      (.mapped ⟨by decide, rfl, rfl⟩) (by decide +kernel)⟩

/-- The allow list lets an authority through by its spelling, a denied address under one of its names. -/
theorem allow_list_is_by_spelling :
    ∃ (host : Str) (port : Nat) (allow : AllowList) (ip : Ipv4Addr), (classifyV4 ip).isAllowed = false ∧
      InetSpelling host ip ∧ (checkAuthority host port allow).isAllowed = true := by
  have hfirst : PartSpelling ['1', '2', '7'] 127 := .decimal (by decide) (List.all_eq_true.1 (by decide)) (by decide)
  have hlast : PartSpelling ['1'] 1 := .decimal (by decide) (List.all_eq_true.1 (by decide)) (by decide)
  exact ⟨['1', '2', '7', '.', '1'], 80, [(['1', '2', '7', '.', '1'], 80)], ⟨127, 0, 0, 1⟩, by decide,
    .two hfirst (by norm_num) hlast (by norm_num), by decide +kernel⟩

end Tethra.Observe
