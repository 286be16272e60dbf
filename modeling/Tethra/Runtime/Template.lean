import Tethra.Runtime.Sanitize

set_option autoImplicit false

/-! # The length of path templates (`core/src/runtime/sanitize.rs`)

The output of `sanitize_path` as a list of pieces, one for each segment, each behind its slash. A
template is sanitized to itself (`sanitizePath_idempotent`). Its bounds are checked before a segment
is added, and empty segments are not counted: a template keeps the documented bounds exactly when the
one that is made without a byte limit does (`sanitizePath_bounded_iff`). -/

namespace Tethra.Runtime

/-- What stands for a segment. -/
def piece (seg : Bytes) : Bytes := if seg = [] then [] else (classifySegment seg).1

/-- The pieces of a template that is `len` bytes long with its last slash; `full` is the check on the
    bytes. -/
def pieces (full : Nat → Bool) : List Bytes → Nat → Nat → List Bytes
  | [], _, _ => []
  | seg :: segs, parts, len =>
      if maxParts ≤ parts || full len then [truncatedMark]
      else piece seg :: pieces full segs (if seg = [] then parts else parts + 1)
        (len + (piece seg).length + 1)

/-- The check of the code. -/
def capped (len : Nat) : Bool := maxLen ≤ len

/-- No check on the bytes. -/
def uncapped (_ : Nat) : Bool := false

def joined (ps : List Bytes) : Bytes := ps.flatMap (slash :: ·)

@[simp] theorem joined_nil : joined [] = [] := rfl

@[simp] theorem joined_cons (p : Bytes) (ps : List Bytes) :
    joined (p :: ps) = slash :: (p ++ joined ps) := rfl

theorem templateLoop_eq (segs : List Bytes) (out : Bytes) (parts : Nat) (confidence : Confidence) :
    (templateLoop segs false out parts confidence).1
      = out ++ joined (pieces capped segs parts (out.length + 1)) := by
  induction segs generalizing out parts confidence with
  | nil => simp [templateLoop, pieces]
  | cons seg segs ih =>
      have hlen : (out ++ [slash]).length = out.length + 1 := List.length_append
      have hcap : capped (out.length + 1) = decide (maxLen ≤ out.length + 1) := rfl
      unfold templateLoop pieces
      simp only [Bool.false_eq_true, if_false, hlen, hcap]
      split
      · simp
      by_cases hseg : seg = []
      · simp only [hseg, if_true, ih, hlen, piece]
        simp
      · simp only [hseg, if_false, ih, piece]
        simp [Nat.add_assoc, Nat.add_comm, Nat.add_left_comm]

/-- The segments behind the leading slash. -/
def segmentsOf (raw : Bytes) : List Bytes := (severed raw).tail.splitOn slash

theorem segmentsOf_ne_nil (raw : Bytes) : segmentsOf raw ≠ [] :=
  List.splitOnP_ne_nil _ _

theorem pieces_ne_nil {full : Nat → Bool} {segs : List Bytes} (h : segs ≠ []) (parts len : Nat) :
    pieces full segs parts len ≠ [] := by
  obtain ⟨seg, segs, rfl⟩ := List.exists_cons_of_ne_nil h
  unfold pieces
  split <;> exact List.cons_ne_nil _ _

/-- The template of a target in origin form. -/
theorem sanitizePath_origin {raw : Bytes} (h : (severed raw).head? = some slash) :
    (sanitizePath raw).1 = joined (pieces capped (segmentsOf raw) 0 1) := by
  obtain ⟨rest, hrest⟩ : ∃ rest, severed raw = slash :: rest := by
    obtain ⟨rest, hrest⟩ := List.head?_eq_some_iff.1 h
    exact ⟨rest, hrest⟩
  have hstar : slash :: rest ≠ ascii "*" := by
    intro heq
    have hhead : some slash = (ascii "*").head? := congrArg List.head? heq
    exact absurd hhead (by decide)
  have hloop : (templateLoop ([] :: rest.splitOn slash) true [] 0 .high).1
      = joined (pieces capped (segmentsOf raw) 0 1) := by
    have htail := templateLoop_eq (rest.splitOn slash) [] 0 .high
    unfold templateLoop
    simpa [maxParts, maxLen, segmentsOf, hrest] using htail
  have hne : joined (pieces capped (segmentsOf raw) 0 1) ≠ [] := by
    obtain ⟨p, ps, hps⟩ :=
      List.exists_cons_of_ne_nil (@pieces_ne_nil capped _ (segmentsOf_ne_nil raw) 0 1)
    rw [hps]
    exact List.cons_ne_nil _ _
  unfold sanitizePath
  dsimp only
  rw [hrest, if_neg hstar, if_neg (by simp), Segments.splitOn_cons_sep]
  dsimp only
  rw [hloop, if_neg hne]

/-! ## Pieces are sanitized to themselves -/

theorem slash_notMem_segmentsOf {raw seg : Bytes} (h : seg ∈ segmentsOf raw) : slash ∉ seg :=
  Segments.sep_notMem h

theorem placeholder_fixed : ∀ p ∈ placeholders, (classifySegment p).1 = p ∧ p ≠ [] ∧ slash ∉ p := by
  decide

theorem classifySegment_fixed (seg : Bytes) :
    (classifySegment (classifySegment seg).1).1 = (classifySegment seg).1 := by
  rcases classifySegment_cases seg with hmem | ⟨heq, -⟩
  · exact (placeholder_fixed _ hmem).1
  · rw [heq, heq]

theorem classifySegment_ne_nil {seg : Bytes} (h : seg ≠ []) : (classifySegment seg).1 ≠ [] := by
  rcases classifySegment_cases seg with hmem | ⟨heq, -⟩
  · exact (placeholder_fixed _ hmem).2.1
  · rwa [heq]

theorem piece_eq_nil {seg : Bytes} : piece seg = [] ↔ seg = [] := by
  unfold piece
  by_cases h : seg = []
  · simp [h]
  · simp [h, classifySegment_ne_nil h]

theorem piece_piece (seg : Bytes) : piece (piece seg) = piece seg := by
  by_cases h : seg = []
  · simp [piece, h]
  · have hne := classifySegment_ne_nil h
    simp [piece, h, hne, classifySegment_fixed]

theorem slash_notMem_piece {seg : Bytes} (h : slash ∉ seg) : slash ∉ piece seg := by
  unfold piece
  split
  · simp
  rcases classifySegment_cases seg with hmem | ⟨heq, -⟩
  · exact (placeholder_fixed _ hmem).2.2
  · rwa [heq]

theorem slash_notMem_pieces {full : Nat → Bool} {segs : List Bytes} (h : ∀ seg ∈ segs, slash ∉ seg)
    (parts len : Nat) : ∀ p ∈ pieces full segs parts len, slash ∉ p := by
  induction segs generalizing parts len with
  | nil => exact nofun
  | cons seg segs ih =>
      obtain ⟨hseg, hsegs⟩ := List.forall_mem_cons.1 h
      unfold pieces
      split
      · exact List.forall_mem_singleton.2 (by decide)
      · exact List.forall_mem_cons.2 ⟨slash_notMem_piece hseg, ih hsegs _ _⟩

/-- The pieces of the pieces are the pieces: a mark stands where it would be put again. -/
theorem pieces_pieces (full : Nat → Bool) (segs : List Bytes) (parts len : Nat) :
    pieces full (pieces full segs parts len) parts len = pieces full segs parts len := by
  induction segs generalizing parts len with
  | nil => rfl
  | cons seg segs ih =>
      by_cases hfull : (maxParts ≤ parts || full len) = true
      · simp [pieces, hfull]
      · simp only [pieces, hfull, if_false, Bool.false_eq_true, piece_piece, piece_eq_nil, ih]

theorem intercalate_eq (p : Bytes) (ps : List Bytes) :
    [slash].intercalate (p :: ps) = p ++ joined ps := by
  induction ps generalizing p with
  | nil => simp [List.intercalate]
  | cons q ps ih =>
      have hcons : [slash].intercalate (p :: q :: ps) = p ++ slash :: [slash].intercalate (q :: ps) := by
        simp [List.intercalate]
      rw [hcons, ih, joined_cons]

theorem severed_of_clean {out : Bytes} (h : Clean out) : severed out = out := by
  refine List.takeWhile_eq_self_iff.2 fun b hb => ?_
  have := h.plain b hb
  simp only [isForbidden, Bool.or_eq_false_iff, decide_eq_false_iff_not] at this
  simp [this.1.1]

theorem segmentsOf_joined {ps : List Bytes} (hne : ps ≠ []) (hslash : ∀ p ∈ ps, slash ∉ p)
    (hclean : Clean (joined ps)) : segmentsOf (joined ps) = ps := by
  obtain ⟨p, ps, rfl⟩ := List.exists_cons_of_ne_nil hne
  unfold segmentsOf
  rw [severed_of_clean hclean, joined_cons, List.tail_cons, ← intercalate_eq]
  exact List.splitOn_intercalate slash hslash hne

/-- Sanitizing a template changes nothing. -/
theorem sanitizePath_idempotent (raw : Bytes) :
    (sanitizePath (sanitizePath raw).1).1 = (sanitizePath raw).1 := by
  by_cases horigin : (severed raw).head? = some slash
  · have hclean := sanitizePath_clean raw
    rw [sanitizePath_origin horigin] at hclean ⊢
    have hne := @pieces_ne_nil capped _ (segmentsOf_ne_nil raw) 0 1
    have hslash := @slash_notMem_pieces capped (segmentsOf raw)
      (fun _ h => slash_notMem_segmentsOf h) 0 1
    have hsegs := segmentsOf_joined hne hslash hclean
    have hhead : (severed (joined (pieces capped (segmentsOf raw) 0 1))).head? = some slash := by
      rw [severed_of_clean hclean]
      obtain ⟨p, ps, hps⟩ := List.exists_cons_of_ne_nil hne
      rw [hps]
      rfl
    rw [sanitizePath_origin hhead, hsegs, pieces_pieces]
  · have hfixed : ∀ out ∈ [ascii "*", ascii "/:redacted"], (sanitizePath out).1 = out := by decide
    have hout : (sanitizePath raw).1 ∈ [ascii "*", ascii "/:redacted"] := by
      unfold sanitizePath
      dsimp only
      rw [if_pos horigin]
      split <;> simp
    exact hfixed _ hout

/-! ## The bounds -/

/-- The template that is made without a limit on the bytes. -/
def unboundedTemplate (raw : Bytes) : Bytes :=
  if severed raw = ascii "*" then ascii "*"
  else if (severed raw).head? ≠ some slash then ascii "/:redacted"
  else joined (pieces uncapped (segmentsOf raw) 0 1)

/-- At most the documented number of bytes, and of segments: the twenty and the mark. -/
structure Bounded (out : Bytes) : Prop where
  bytes : out.length ≤ maxLen
  segments : out.count slash ≤ maxParts + 1

theorem length_joined_cons (p : Bytes) (ps : List Bytes) :
    (joined (p :: ps)).length = p.length + (joined ps).length + 1 := by
  simp

/-- A template ends in a slash exactly when its last piece is empty. -/
theorem getLast?_joined_cons {p : Bytes} (hp : slash ∉ p) (ps : List Bytes) :
    (joined (p :: ps)).getLast? = some slash ↔
      if ps = [] then p = [] else (joined ps).getLast? = some slash := by
  by_cases hps : ps = []
  · rw [if_pos hps, hps, joined_cons, joined_nil, List.append_nil]
    cases p using List.reverseRecOn with
    | nil => simp
    | append_singleton p b =>
        have hb : b ≠ slash := fun heq => hp (by simp [heq])
        have hlast : (slash :: (p ++ [b])).getLast? = some b := by
          rw [← List.cons_append, List.getLast?_concat]
        simp [hlast, hb]
  · obtain ⟨q, qs, rfl⟩ := List.exists_cons_of_ne_nil hps
    rw [if_neg hps, joined_cons q]
    show (slash :: p ++ slash :: (q ++ joined qs)).getLast? = some slash ↔ _
    rw [List.getLast?_append_of_ne_nil _ (List.cons_ne_nil _ _)]

/-- Behind `len` bytes the pieces keep the limit, with a byte to spare if they end in a slash. -/
structure Spared (len : Nat) (ps : List Bytes) : Prop where
  fits : len + (joined ps).length ≤ maxLen
  spare : (joined ps).getLast? = some slash → len + (joined ps).length < maxLen

theorem spared_nil (len : Nat) : Spared len [] ↔ len ≤ maxLen :=
  ⟨fun h => h.fits, fun h => ⟨h, nofun⟩⟩

theorem spared_cons {p : Bytes} (hp : slash ∉ p) {ps : List Bytes} (hps : ps ≠ []) (len : Nat) :
    Spared len (p :: ps) ↔ Spared (len + p.length + 1) ps := by
  have hlast := getLast?_joined_cons hp ps
  rw [if_neg hps] at hlast
  have hlen : len + (joined (p :: ps)).length = len + p.length + 1 + (joined ps).length := by
    rw [length_joined_cons]
    omega
  constructor
  · rintro ⟨hfits, hspare⟩
    rw [hlen] at hfits hspare
    exact ⟨hfits, fun h => hspare (hlast.2 h)⟩
  · rintro ⟨hfits, hspare⟩
    rw [← hlen] at hfits hspare
    exact ⟨hfits, fun h => hspare (hlast.1 h)⟩

theorem spared_singleton {p : Bytes} (hp : slash ∉ p) {len : Nat} (hroom : len + 1 < maxLen) :
    Spared len [p] ↔ len + p.length + 1 ≤ maxLen := by
  have hlast := getLast?_joined_cons hp []
  rw [if_pos rfl] at hlast
  have hlen : len + (joined [p]).length = len + p.length + 1 := by
    rw [length_joined_cons]
    rfl
  constructor
  · intro h
    exact hlen ▸ h.fits
  · intro h
    refine ⟨hlen.trans_le h, fun hend => ?_⟩
    rw [hlen, hlast.1 hend]
    exact hroom

/-- Behind the last byte but one, only an empty piece is left, and that ends in a slash. -/
theorem not_spared_of_full {len : Nat} (hfull : maxLen ≤ len + 1) {p : Bytes} (hp : slash ∉ p)
    (ps : List Bytes) : ¬Spared len (p :: ps) := by
  rintro ⟨hfits, hspare⟩
  rw [length_joined_cons] at hfits hspare
  have hzero : p.length = 0 ∧ (joined ps).length = 0 := by omega
  have hps : ps = [] := by
    cases ps with
    | nil => rfl
    | cons q qs => simp at hzero
  have hstrict := hspare ((getLast?_joined_cons hp ps).2 (by
    rw [if_pos hps]
    exact List.length_eq_zero_iff.1 hzero.1))
  omega

/-- Behind the same bytes, the limit is kept by the template exactly when the one without it keeps it,
    with a byte to spare if it ends in a slash. -/
theorem fits_iff {segs : List Bytes} (hsegs : ∀ seg ∈ segs, slash ∉ seg) (parts len : Nat) :
    len + (joined (pieces capped segs parts (len + 1))).length ≤ maxLen ↔
      Spared len (pieces uncapped segs parts (len + 1)) := by
  induction segs generalizing parts len with
  | nil => exact (spared_nil len).symm
  | cons seg segs ih =>
      obtain ⟨hseg, hrest⟩ := List.forall_mem_cons.1 hsegs
      by_cases hparts : maxParts ≤ parts
      · have hlast : (joined [truncatedMark]).getLast? ≠ some slash := by decide
        have hcut : ∀ full, pieces full (seg :: segs) parts (len + 1) = [truncatedMark] := by
          intro full
          simp [pieces, hparts]
        rw [hcut, hcut]
        exact ⟨fun h => ⟨h, fun hend => absurd hend hlast⟩, Spared.fits⟩
      have hpiece := slash_notMem_piece hseg
      have hstep := ih hrest (if seg = [] then parts else parts + 1) (len + (piece seg).length + 1)
      have huncapped : pieces uncapped (seg :: segs) parts (len + 1) = piece seg ::
          pieces uncapped segs (if seg = [] then parts else parts + 1)
            (len + (piece seg).length + 1 + 1) := by
        simp [pieces, uncapped, hparts, Nat.add_right_comm]
      rw [huncapped]
      generalize pieces uncapped segs _ _ = more at hstep ⊢
      by_cases hfull : maxLen ≤ len + 1
      -- the template is cut here, behind its last allowed byte
      · have hcapped : pieces capped (seg :: segs) parts (len + 1) = [truncatedMark] := by
          simp [pieces, capped, hfull]
        have hmark : (joined [truncatedMark]).length = 11 := by decide
        rw [hcapped, hmark]
        exact iff_of_false (by omega) (not_spared_of_full hfull hpiece more)
      · have hcapped : pieces capped (seg :: segs) parts (len + 1) = piece seg ::
            pieces capped segs (if seg = [] then parts else parts + 1)
              (len + (piece seg).length + 1 + 1) := by
          simp [pieces, capped, hparts, hfull, Nat.add_right_comm]
        have hlen : ∀ n, len + ((piece seg).length + n + 1) = len + (piece seg).length + 1 + n := by
          intro n
          omega
        rw [hcapped, length_joined_cons, hlen, hstep]
        by_cases hmore : more = []
        · rw [hmore, spared_singleton hpiece (not_le.1 hfull), spared_nil]
        · rw [spared_cons hpiece hmore]

/-- A template that keeps the limit was not cut by it. -/
theorem pieces_eq_of_fits (segs : List Bytes) (parts len : Nat)
    (h : len + (joined (pieces capped segs parts (len + 1))).length ≤ maxLen) :
    pieces capped segs parts (len + 1) = pieces uncapped segs parts (len + 1) := by
  induction segs generalizing parts len with
  | nil => rfl
  | cons seg segs ih =>
      by_cases hparts : maxParts ≤ parts
      · simp [pieces, hparts]
      by_cases hfull : maxLen ≤ len + 1
      · have hmark : (joined [truncatedMark]).length = 11 := by decide
        simp only [pieces, capped, hfull, decide_true, Bool.or_true, if_true, hmark] at h
        omega
      · simp only [pieces, capped, uncapped, hparts, hfull, decide_false, Bool.or_false,
          Bool.false_eq_true, if_false, length_joined_cons] at h ⊢
        rw [Nat.add_right_comm len 1] at h ⊢
        exact congrArg _ (ih _ _ (by omega))

/-- The template without a byte limit has at most 512 bytes, at most 511 if it ends in a slash, and at
    most 21 segments. -/
structure FitsUnbounded (raw : Bytes) : Prop where
  bounded : Bounded (unboundedTemplate raw)
  spare : (unboundedTemplate raw).getLast? = some slash → (unboundedTemplate raw).length < maxLen

/-- Sanitizing is idempotent for every input, and bounded exactly when the template that is made
    without the byte limit fits. -/
theorem sanitizePath_bounded_iff (raw : Bytes) :
    ((sanitizePath (sanitizePath raw).1).1 = (sanitizePath raw).1 ∧ Bounded (sanitizePath raw).1) ↔
      FitsUnbounded raw := by
  rw [and_iff_right (sanitizePath_idempotent raw)]
  by_cases horigin : (severed raw).head? = some slash
  · have hsegs : ∀ seg ∈ segmentsOf raw, slash ∉ seg := fun _ h => slash_notMem_segmentsOf h
    have hfits := fits_iff hsegs 0 0
    have hsame := pieces_eq_of_fits (segmentsOf raw) 0 0
    have hstar : severed raw ≠ ascii "*" := by
      intro heq
      rw [heq] at horigin
      exact absurd horigin (by decide)
    have htemplate : unboundedTemplate raw = joined (pieces uncapped (segmentsOf raw) 0 1) := by
      unfold unboundedTemplate
      rw [if_neg hstar, if_neg (not_not.2 horigin)]
    simp only [Nat.zero_add] at hfits hsame
    rw [sanitizePath_origin horigin]
    constructor
    · rintro ⟨hbytes, hsegments⟩
      obtain ⟨hle, hspare⟩ := hfits.1 hbytes
      rw [hsame hbytes] at hsegments
      rw [Nat.zero_add, ← htemplate] at hle hspare
      rw [← htemplate] at hsegments
      exact ⟨⟨hle, hsegments⟩, hspare⟩
    · rintro ⟨⟨hbytes, hsegments⟩, hspare⟩
      rw [htemplate] at hbytes hsegments hspare
      rw [← Nat.zero_add (joined _).length] at hbytes hspare
      have hbytes' := hfits.2 ⟨hbytes, hspare⟩
      refine ⟨hbytes', ?_⟩
      rw [hsame hbytes']
      exact hsegments
  · have hout : (sanitizePath raw).1 = unboundedTemplate raw := by
      unfold sanitizePath unboundedTemplate
      dsimp only
      rw [if_pos horigin, if_pos horigin]
      split <;> rfl
    rw [hout]
    refine ⟨fun h => ⟨h, fun hend => ?_⟩, fun h => h.bounded⟩
    have hsmall : ∀ out ∈ [ascii "*", ascii "/:redacted"], out.getLast? ≠ some slash := by decide
    refine absurd hend (hsmall _ ?_)
    unfold unboundedTemplate
    rw [if_pos horigin]
    split <;> simp

/-- Forty slashes are forty empty segments, which the bound does not count. -/
theorem slashes_not_bounded :
    ¬∀ raw : Bytes, (sanitizePath (sanitizePath raw).1).1 = (sanitizePath raw).1 ∧
      Bounded (sanitizePath raw).1 := by
  intro h
  have hbound := (h (List.replicate 40 slash)).2.segments
  exact absurd hbound (by decide)

end Tethra.Runtime
