import Mathlib

set_option autoImplicit false

/-! # Length-prefixed framing

Fields written one after the other, each behind its length. The framing is injective: from equal bytes
the same number of fields, and whatever follows them, is read back (`frames_append_inj`). -/

namespace Framing

/-- The `n` low bytes of `v`, least significant first. -/
def leBytes : Nat → Nat → List UInt8
  | 0, _ => []
  | n + 1, v => UInt8.ofNat v :: leBytes n (v / 256)

@[simp] theorem length_leBytes (n v : Nat) : (leBytes n v).length = n := by
  induction n generalizing v with
  | zero => rfl
  | succ n ih => simp [leBytes, ih]

/-- Numbers that fit are determined by their bytes. -/
theorem leBytes_inj {n v w : Nat} (hv : v < 256 ^ n) (hw : w < 256 ^ n)
    (h : leBytes n v = leBytes n w) : v = w := by
  induction n generalizing v w with
  | zero =>
      rw [pow_zero] at hv hw
      omega
  | succ n ih =>
      obtain ⟨hlow, hrest⟩ := List.cons.inj h
      have hmod : v % 256 = w % 256 := by
        have hnat := congrArg UInt8.toNat hlow
        simpa using hnat
      have hdiv : v / 256 = w / 256 := by
        refine ih ?_ ?_ hrest
        · rw [pow_succ] at hv
          omega
        · rw [pow_succ] at hw
          omega
      omega

/-- A field behind its length, in eight bytes. -/
def frame (field : List UInt8) : List UInt8 := leBytes 8 field.length ++ field

/-- The length of the field fits into eight bytes. -/
def Fits (field : List UInt8) : Prop := field.length < 256 ^ 8

def frames (fields : List (List UInt8)) : List UInt8 := fields.flatMap frame

/-- A field and what follows it are read back. -/
theorem frame_append_inj {a b u v : List UInt8} (ha : Fits a) (hb : Fits b)
    (h : frame a ++ u = frame b ++ v) : a = b ∧ u = v := by
  unfold frame at h
  rw [List.append_assoc, List.append_assoc] at h
  obtain ⟨hlen, hrest⟩ := List.append_inj h (by rw [length_leBytes, length_leBytes])
  exact List.append_inj hrest (leBytes_inj ha hb hlen)

/-- As many fields, and what follows them, are read back. -/
theorem frames_append_inj {as bs : List (List UInt8)} {u v : List UInt8}
    (hlen : as.length = bs.length) (has : ∀ a ∈ as, Fits a) (hbs : ∀ b ∈ bs, Fits b)
    (h : frames as ++ u = frames bs ++ v) : as = bs ∧ u = v := by
  induction as generalizing bs with
  | nil =>
      obtain rfl := List.eq_nil_of_length_eq_zero hlen.symm
      exact ⟨rfl, h⟩
  | cons a as ih =>
      obtain ⟨b, bs, rfl⟩ := List.exists_cons_of_length_eq_add_one hlen.symm
      simp only [frames, List.flatMap_cons, List.append_assoc] at h
      obtain ⟨rfl, hrest⟩ := frame_append_inj (has a (by simp)) (hbs b (by simp)) h
      obtain ⟨rfl, huv⟩ := ih (Nat.succ.inj hlen) (fun x hx => has x (List.mem_cons_of_mem _ hx))
        (fun x hx => hbs x (List.mem_cons_of_mem _ hx)) hrest
      exact ⟨rfl, huv⟩

/-- Framed fields are read back, however many there are. -/
theorem frames_inj {as bs : List (List UInt8)} (has : ∀ a ∈ as, Fits a) (hbs : ∀ b ∈ bs, Fits b)
    (h : frames as = frames bs) : as = bs := by
  have hframe : ∀ field : List UInt8, frame field ≠ [] := by
    intro field hnil
    have := congrArg List.length hnil
    simp [frame] at this
  induction as generalizing bs with
  | nil =>
      cases bs with
      | nil => rfl
      | cons b bs => exact absurd (List.append_eq_nil_iff.1 h.symm).1 (hframe b)
  | cons a as ih =>
      cases bs with
      | nil => exact absurd (List.append_eq_nil_iff.1 h).1 (hframe a)
      | cons b bs =>
          obtain ⟨rfl, hrest⟩ := frame_append_inj (has a (by simp)) (hbs b (by simp)) h
          rw [ih (fun x hx => has x (List.mem_cons_of_mem _ hx))
            (fun x hx => hbs x (List.mem_cons_of_mem _ hx)) hrest]

/-! ## Fields of several kinds -/

/-- Fields of two kinds, one after the other, are read back when no field is of both. -/
theorem map_append_map_inj {α β γ : Type} {f : α → γ} {g : β → γ} (hf : Function.Injective f)
    (hg : Function.Injective g) (hne : ∀ a b, f a ≠ g b) {as as' : List α} {bs bs' : List β}
    (h : as.map f ++ bs.map g = as'.map f ++ bs'.map g) : as = as' ∧ bs = bs' := by
  induction as generalizing as' with
  | nil =>
      cases as' with
      | nil => exact ⟨rfl, hg.list_map (by simpa using h)⟩
      | cons a' as' =>
          cases bs with
          | nil => simp at h
          | cons b bs => exact absurd (List.cons.inj h).1.symm (hne a' b)
  | cons a as ih =>
      cases as' with
      | nil =>
          cases bs' with
          | nil => simp at h
          | cons b bs' => exact absurd (List.cons.inj h).1 (hne a b)
      | cons a' as' =>
          obtain ⟨ha, hrest⟩ := List.cons.inj h
          obtain ⟨rfl, hbs⟩ := ih hrest
          rw [hf ha]
          exact ⟨rfl, hbs⟩

/-- Pairs at the end of a list are read back when the second member of each is told from the fields
    before them. -/
theorem append_pairs_inj {α : Type} {isFlag : α → Prop} {as bs : List α} {ps qs : List (α × α)}
    (has : ∀ a ∈ as, ¬isFlag a) (hbs : ∀ b ∈ bs, ¬isFlag b) (hps : ∀ p ∈ ps, isFlag p.2)
    (hqs : ∀ q ∈ qs, isFlag q.2)
    (h : as ++ ps.flatMap (fun p => [p.1, p.2]) = bs ++ qs.flatMap (fun p => [p.1, p.2])) :
    as = bs ∧ ps = qs := by
  -- the last field is a flag as long as there are pairs left
  induction ps using List.reverseRecOn generalizing qs with
  | nil =>
      cases qs using List.reverseRecOn with
      | nil => exact ⟨by simpa using h, rfl⟩
      | append_singleton qs q =>
          have hlast : q.2 ∈ as := by
            rw [List.flatMap_nil, List.append_nil] at h
            rw [h]
            simp
          exact absurd (hqs q (by simp)) (has _ hlast)
  | append_singleton ps p ih =>
      cases qs using List.reverseRecOn with
      | nil =>
          have hlast : p.2 ∈ bs := by
            rw [List.flatMap_nil, List.append_nil] at h
            rw [← h]
            simp
          exact absurd (hps p (by simp)) (hbs _ hlast)
      | append_singleton qs q =>
          simp only [List.flatMap_append, List.flatMap_singleton, ← List.append_assoc] at h
          obtain ⟨hinit, hpair⟩ := List.append_inj' h rfl
          obtain ⟨rfl, rfl⟩ := ih (fun x hx => hps x (by simp [hx])) (fun x hx => hqs x (by simp [hx])) hinit
          simp only [List.cons.injEq, and_true] at hpair
          rw [Prod.ext hpair.1 hpair.2]
          exact ⟨rfl, rfl⟩

end Framing
