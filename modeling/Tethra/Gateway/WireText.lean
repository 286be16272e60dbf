import Tethra.Gateway.Origin

set_option autoImplicit false

/-! # Text on the wire

Bytes read as UTF-8, and the bytes of a string. -/

namespace Tethra.Gateway

abbrev Bytes := List UInt8

def cr : UInt8 := 13

def lf : UInt8 := 10

def crlf : Bytes := [cr, lf]

/-- `str::from_utf8`. -/
def fromUtf8 (bytes : Bytes) : Option Str :=
  (ByteArray.mk bytes.toArray).utf8Decode?.map Array.toList

theorem toByteArray_utf8 (t : Str) : ByteArray.mk (utf8 t).toArray = t.utf8Encode := by
  have h : (String.ofList t).toByteArray = t.utf8Encode := String.toByteArray_ofList
  unfold utf8
  rw [h]

theorem utf8_eq_flatMap (t : Str) : utf8 t = t.flatMap String.utf8EncodeChar := by
  have h := congrArg (fun b => b.data.toList) (toByteArray_utf8 t)
  simpa [List.utf8Encode] using h

@[simp] theorem utf8_nil : utf8 [] = [] := by
  simp [utf8_eq_flatMap]

@[simp] theorem utf8_append (t u : Str) : utf8 (t ++ u) = utf8 t ++ utf8 u := by
  simp [utf8_eq_flatMap]

theorem mem_utf8 {b : UInt8} {t : Str} : b ∈ utf8 t ↔ ∃ c ∈ t, b ∈ utf8 [c] := by
  simp [utf8_eq_flatMap]

theorem fromUtf8_eq_some {bytes : Bytes} {t : Str} : fromUtf8 bytes = some t ↔ utf8 t = bytes := by
  constructor
  · intro hdecode
    obtain ⟨chars, hchars, rfl⟩ := Option.map_eq_some_iff.1 hdecode
    have hsome : (ByteArray.mk bytes.toArray).utf8Decode?.isSome := by rw [hchars]; rfl
    have hround := @ByteArray.utf8Encode_get_utf8Decode? (ByteArray.mk bytes.toArray) hsome
    have hget : (ByteArray.mk bytes.toArray).utf8Decode?.get hsome = chars := by simp [hchars]
    rw [hget, ← toByteArray_utf8] at hround
    simpa using congrArg (fun b => b.data.toList) hround
  · rintro rfl
    unfold fromUtf8
    rw [toByteArray_utf8, List.utf8Decode?_utf8Encode]
    simp

/-! ## ASCII -/

def charOf (b : UInt8) : Char := Char.ofNat b.toNat

theorem utf8EncodeChar_charOf :
    ∀ b : UInt8, b < 128 → String.utf8EncodeChar (charOf b) = [b] := by
  decide +kernel

/-- Bytes below 128 are their own characters. -/
theorem fromUtf8_ascii {bytes : Bytes} (h : ∀ b ∈ bytes, b < 128) :
    fromUtf8 bytes = some (bytes.map charOf) := by
  rw [fromUtf8_eq_some, utf8_eq_flatMap]
  induction bytes with
  | nil => rfl
  | cons b bytes ih =>
      have htail : ∀ c ∈ bytes, c < 128 := fun c hc => h c (List.mem_cons_of_mem _ hc)
      rw [List.map_cons, List.flatMap_cons, utf8EncodeChar_charOf b (h b (List.mem_cons_self ..)),
        ih htail]
      rfl

/-! ## Lossy decoding -/

/-- A second byte that may follow the first of a sequence of three or four. -/
def secondFits (first second : UInt8) : Bool :=
  (first = 0xE0 && (0xA0 ≤ second && second ≤ 0xBF)) ||
  (0xE1 ≤ first && first ≤ 0xEF && first ≠ 0xED && (0x80 ≤ second && second ≤ 0xBF)) ||
  (first = 0xED && (0x80 ≤ second && second ≤ 0x9F)) ||
  (first = 0xF0 && (0x90 ≤ second && second ≤ 0xBF)) ||
  (0xF1 ≤ first && first ≤ 0xF3 && (0x80 ≤ second && second ≤ 0xBF)) ||
  (first = 0xF4 && (0x80 ≤ second && second ≤ 0x8F))

/-- The bytes that one replacement character stands for: those that could have begun a character. -/
def invalidLength : Bytes → Nat
  | first :: second :: rest =>
      if !secondFits first second then 1
      else if rest.head?.any fun third => 0x80 ≤ third && third ≤ 0xBF then 3
      else 2
  | _ => 1

theorem invalidLength_pos (bytes : Bytes) : 0 < invalidLength bytes := by
  unfold invalidLength
  split
  · split_ifs <;> omega
  · omega

/-- `String::from_utf8_lossy`. -/
def fromUtf8Lossy (bytes : Bytes) : Str :=
  if h : bytes = [] then []
  else
    match (ByteArray.mk bytes.toArray).utf8DecodeChar? 0 with
    | some c => c :: fromUtf8Lossy (bytes.drop c.utf8Size)
    | none => '\uFFFD' :: fromUtf8Lossy (bytes.drop (invalidLength bytes))
termination_by bytes.length
decreasing_by
  · have := List.length_pos_iff.2 h
    have := c.utf8Size_pos
    rw [List.length_drop]
    omega
  · have := List.length_pos_iff.2 h
    have := invalidLength_pos bytes
    rw [List.length_drop]
    omega

theorem utf8DecodeChar?_cons (c : Char) (bytes : Bytes) :
    (ByteArray.mk (String.utf8EncodeChar c ++ bytes).toArray).utf8DecodeChar? 0 = some c := by
  have happ : ByteArray.mk (String.utf8EncodeChar c ++ bytes).toArray
      = (String.utf8EncodeChar c).toByteArray ++ ByteArray.mk bytes.toArray := by
    apply ByteArray.ext
    simp
  rw [happ]
  exact ByteArray.utf8DecodeChar?_utf8EncodeChar_append

/-- Valid text is read as it is. -/
theorem fromUtf8Lossy_utf8 (t : Str) : fromUtf8Lossy (utf8 t) = t := by
  rw [utf8_eq_flatMap]
  induction t with
  | nil => simp [fromUtf8Lossy]
  | cons c rest ih =>
      have hlen : (String.utf8EncodeChar c).length = c.utf8Size := String.length_utf8EncodeChar c
      have hne : String.utf8EncodeChar c ++ rest.flatMap String.utf8EncodeChar ≠ [] := by
        have := c.utf8Size_pos
        intro hnil
        have hzero := congrArg List.length hnil
        simp only [List.length_append, List.length_nil] at hzero
        omega
      rw [List.flatMap_cons, fromUtf8Lossy, dif_neg hne, utf8DecodeChar?_cons]
      simp only
      rw [← hlen, List.drop_left, ih]

end Tethra.Gateway
