import Tethra.Core.IgnoreRules

set_option autoImplicit false

/-! # What the glob matchers match (`glob_match_segment`, `glob_match_path`)

Both matchers come back to the most recent star only. Nothing is lost: they answer what the patterns mean, and
what a recursion over everything a star can take would find (`globMatch_complete`). -/

namespace Tethra.Ignore

open Wildcard

/-- What a component pattern means: a `*` is any string, a `?` and a bracket class one character, a backslash the
next character. A bracket that is not closed, and a backslash at the end, stand for themselves. -/
inductive SegmentMatches : Str → Str → Prop
  | nil : SegmentMatches [] []
  | star {p t : Str} (u : Str) (h : SegmentMatches p t) : SegmentMatches ('*' :: p) (u ++ t)
  | any {p t : Str} (c : Char) (h : SegmentMatches p t) : SegmentMatches ('?' :: p) (c :: t)
  | class {p t : Str} {c : Char} {test : Char → Bool} {read : Nat} (hclass : classTest p = some (test, read))
      (hc : test c = true) (h : SegmentMatches (p.drop read) t) : SegmentMatches ('[' :: p) (c :: t)
  | bracket {p t : Str} (hclass : classTest p = none) (h : SegmentMatches p t) :
      SegmentMatches ('[' :: p) ('[' :: t)
  | escape {p t : Str} (c : Char) (h : SegmentMatches p t) : SegmentMatches ('\\' :: c :: p) (c :: t)
  | literal {p t : Str} {c : Char} (hc : c ∉ ['*', '?', '[']) (hescape : c = '\\' → p = [])
      (h : SegmentMatches p t) : SegmentMatches (c :: p) (c :: t)

theorem segmentItems_literal {p : Str} {c : Char} (hc : c ∉ ['*', '?', '[']) (hescape : c = '\\' → p = []) :
    segmentItems (c :: p) = .one (fun x => c == x) :: segmentItems p := by
  simp only [List.mem_cons, List.not_mem_nil, or_false, not_or] at hc
  rw [segmentItems] <;> grind

theorem SegmentMatches.matches_items {p t : Str} (h : SegmentMatches p t) : Matches (segmentItems p) t := by
  induction h with
  | nil =>
      rw [segmentItems]
      exact .nil
  | star u h ih =>
      rw [segmentItems]
      induction u with
      | nil => exact .skip ih
      | cons c u ihu => exact .grow ihu
  | any c h ih =>
      rw [segmentItems]
      exact .one rfl ih
  | «class» hclass hc h ih =>
      rw [segmentItems, hclass]
      exact .one hc ih
  | bracket hclass h ih =>
      rw [segmentItems, hclass]
      exact .one (by simp) ih
  | escape c h ih =>
      rw [segmentItems]
      exact .one (by simp) ih
  | literal hc hescape h ih =>
      rw [segmentItems_literal hc hescape]
      exact .one (by simp) ih

/-- A test takes the next character. -/
theorem matches_one {test : Char → Bool} {ps : List (Item Char)} {t : Str} (h : Matches (.one test :: ps) t) :
    ∃ c rest, t = c :: rest ∧ test c = true ∧ Matches ps rest := by
  cases t with
  | nil => cases h
  | cons c rest => exact ⟨c, rest, rfl, matches_one_cons.1 h⟩

theorem segmentMatches_of_items {p t : Str} (h : Matches (segmentItems p) t) : SegmentMatches p t := by
  fun_induction segmentItems p generalizing t with
  | case1 =>
      cases h
      exact .nil
  | case2 p ih =>
      obtain ⟨n, -, hrest⟩ := h.exists_drop
      rw [← List.take_append_drop n t]
      exact .star _ (ih hrest)
  | case3 p ih =>
      obtain ⟨c, rest, rfl, -, hrest⟩ := matches_one h
      exact .any c (ih hrest)
  | case4 p test read hclass ih =>
      obtain ⟨c, rest, rfl, hc, hrest⟩ := matches_one h
      exact .class hclass hc (ih hrest)
  | case5 p hclass ih =>
      obtain ⟨c, rest, rfl, hc, hrest⟩ := matches_one h
      obtain rfl := beq_iff_eq.1 hc
      exact .bracket hclass (ih hrest)
  | case6 c p ih =>
      obtain ⟨c', rest, rfl, hc, hrest⟩ := matches_one h
      obtain rfl := beq_iff_eq.1 hc
      exact .escape c (ih hrest)
  | case7 c p hstar hany hbracket hescape ih =>
      obtain ⟨c', rest, rfl, hc, hrest⟩ := matches_one h
      obtain rfl := beq_iff_eq.1 hc
      refine .literal (by simpa using ⟨hstar, hany, hbracket⟩) ?_ (ih hrest)
      rintro rfl
      cases p with
      | nil => rfl
      | cons d p => exact (hescape d p rfl rfl).elim

/-- The recursion that tries every number of components for each `**`. -/
def naiveMatchPath : List Str → List Str → Bool
  | [], text => text.isEmpty
  | p :: pattern, text =>
      if p = doubleStar then
        (List.range (text.length + 1)).any fun n => naiveMatchPath pattern (text.drop n)
      else
        match text with
        | [] => false
        | component :: text => globMatchSegment p component && naiveMatchPath pattern text

theorem naiveMatchPath_iff (pattern text : List Str) :
    naiveMatchPath pattern text = true ↔ Matches (pathItems pattern) text := by
  induction pattern generalizing text with
  | nil =>
      cases text with
      | nil => exact iff_of_true rfl .nil
      | cons c text => exact iff_of_false Bool.false_ne_true matches_nil_cons
  | cons p pattern ih =>
      rw [naiveMatchPath.eq_def]
      dsimp only
      split_ifs with hp
      · subst hp
        rw [pathItems_star, List.any_eq_true]
        constructor
        · rintro ⟨n, -, hn⟩
          exact (Matches.skip ((ih _).1 hn)).star_of_drop
        · intro h
          obtain ⟨n, hn, hrest⟩ := h.exists_drop
          exact ⟨n, List.mem_range.2 (Nat.lt_succ_of_le hn), (ih _).2 hrest⟩
      · rw [pathItems_one hp]
        cases text with
        | nil => exact iff_of_false Bool.false_ne_true nofun
        | cons c text => rw [matches_one_cons, ← ih, Bool.and_eq_true]

/-- Going on from the last star only, the matchers miss nothing. -/
theorem globMatch_complete :
    (∀ pattern text : Str, globMatchSegment pattern text = true ↔ SegmentMatches pattern text) ∧
      ∀ pattern text : List Str, globMatchPath pattern text = naiveMatchPath pattern text := by
  refine ⟨fun pattern text => ?_, fun pattern text => ?_⟩
  · rw [globMatchSegment_iff]
    exact ⟨segmentMatches_of_items, SegmentMatches.matches_items⟩
  · rw [Bool.eq_iff_iff, globMatchPath_iff, naiveMatchPath_iff]

end Tethra.Ignore
