import Mathlib

set_option autoImplicit false

/-! # Wildcards

A pattern is a list of items: a test of one element, or a star for any run of elements. `greedy` decides
whether a pattern matches with one pass and the most recent star to come back to, over patterns that
are read item by item with `look`; it answers what `Matches` says of the items (`greedy_iff`). -/

namespace Wildcard

inductive Item (α : Type) where
  | star
  | one (test : α → Bool)

variable {α β : Type}

inductive Matches : List (Item α) → List α → Prop
  | nil : Matches [] []
  | one {test : α → Bool} {ps : List (Item α)} {x : α} {xs : List α} (hx : test x = true)
      (h : Matches ps xs) : Matches (.one test :: ps) (x :: xs)
  | skip {ps : List (Item α)} {xs : List α} (h : Matches ps xs) : Matches (.star :: ps) xs
  | grow {ps : List (Item α)} {x : α} {xs : List α} (h : Matches (.star :: ps) xs) :
      Matches (.star :: ps) (x :: xs)

variable {ps qs : List (Item α)} {x : α} {xs : List α} {test : α → Bool}

theorem matches_nil_cons : ¬ Matches ([] : List (Item α)) (x :: xs) := nofun

theorem matches_one_cons : Matches (.one test :: ps) (x :: xs) ↔ test x = true ∧ Matches ps xs := by
  constructor
  · rintro ⟨⟩
    exact ⟨‹_›, ‹_›⟩
  · rintro ⟨hx, h⟩
    exact .one hx h

theorem matches_star_cons :
    Matches (.star :: ps) (x :: xs) ↔ Matches ps (x :: xs) ∨ Matches (.star :: ps) xs := by
  constructor
  · intro h
    cases h with
    | skip h => exact .inl h
    | grow h => exact .inr h
  · rintro (h | h)
    · exact .skip h
    · exact .grow h

/-- What a star does not take from the front, it takes from further behind as well. -/
theorem Matches.star_of_drop {n : Nat} (h : Matches (.star :: ps) (xs.drop n)) :
    Matches (.star :: ps) xs := by
  induction n generalizing xs with
  | zero => exact h
  | succ n ih =>
      cases xs with
      | nil => simpa using h
      | cons x xs => exact .grow (ih h)

theorem Matches.drop_ones {us : List (α → Bool)} (h : Matches (us.map .one ++ ps) xs) :
    us.length ≤ xs.length ∧ Matches ps (xs.drop us.length) := by
  induction us generalizing xs with
  | nil => exact ⟨Nat.zero_le _, h⟩
  | cons u us ih =>
      rw [List.map_cons, List.cons_append] at h
      obtain _ | ⟨-, hrest⟩ := h
      obtain ⟨hlen, hmatch⟩ := ih hrest
      exact ⟨Nat.succ_le_succ hlen, hmatch⟩

/-- A star that matches starts to match somewhere. -/
theorem Matches.exists_drop (h : Matches (.star :: ps) xs) : ∃ n ≤ xs.length, Matches ps (xs.drop n) := by
  induction xs with
  | nil =>
      obtain _ | _ | hskip := h
      exact ⟨0, le_rfl, hskip⟩
  | cons x xs ih =>
      obtain hnow | hlater := matches_star_cons.1 h
      · exact ⟨0, Nat.zero_le _, hnow⟩
      · obtain ⟨n, hn, hmatch⟩ := ih hlater
        exact ⟨n + 1, Nat.succ_le_succ hn, hmatch⟩

/-- Behind a star and some tests there may be another star: then the later one matches on its own all that
the earlier one can reach. -/
theorem Matches.star_of_star_ones {us : List (α → Bool)}
    (h : Matches (.star :: (us.map .one ++ .star :: ps)) xs) :
    us.length ≤ xs.length ∧ Matches (.star :: ps) (xs.drop us.length) := by
  obtain ⟨n, hn, hmatch⟩ := h.exists_drop
  obtain ⟨hlen, hrest⟩ := hmatch.drop_ones
  rw [List.length_drop] at hlen
  refine ⟨by omega, ?_⟩
  rw [List.drop_drop, Nat.add_comm, ← List.drop_drop] at hrest
  exact hrest.star_of_drop

theorem Matches.append_star (h : Matches ps xs) : Matches (ps ++ [.star]) xs := by
  induction h with
  | nil => exact .skip .nil
  | one hx _ ih => exact .one hx ih
  | skip _ ih => exact .skip ih
  | grow _ ih => exact .grow ih

/-! ## The loop -/

/-- What the pattern does with an element: a star, a step past one pattern position and `more` further
ones, or no match. -/
inductive Look where
  | star
  | step (more : Nat)
  | stuck

section Loop

variable (isStar : β → Bool) (look : List β → α → Look)

/-- `saved` is the pattern behind the most recent star and the text that the star began at. -/
def greedy (p : List β) (t : List α) (saved : Option (List β × List α)) : Bool :=
  match t, p with
  | [], p => p.all isStar
  | x :: t, [] =>
      match saved with
      | some (sp, _ :: st) => greedy sp st (some (sp, st))
      | _ => false
  | x :: t, b :: p =>
      match look (b :: p) x with
      | .star => greedy p (x :: t) (some (p, x :: t))
      | .step more => greedy (p.drop more) t saved
      | .stuck =>
          match saved with
          | some (sp, _ :: st) => greedy sp st (some (sp, st))
          | _ => false
termination_by (max t.length (saved.elim 0 fun s => s.2.length), p.length)
decreasing_by
  all_goals simp [Prod.lex_def]
  all_goals omega

/-- `items` is the reading of a pattern, position by position, that `look` follows. -/
structure Reading (items : List β → List (Item α)) : Prop where
  nil : items [] = []
  star : ∀ b p, isStar b = true → items (b :: p) = .star :: items p ∧ ∀ x, look (b :: p) x = .star
  one : ∀ b p, isStar b = false → ∃ test more, items (b :: p) = .one test :: items (p.drop more) ∧
    ∀ x, look (b :: p) x = if test x then .step more else .stuck

variable {isStar look}

/-- From the saved star on, the loop has gone past tests only. -/
def Behind (items : List β → List (Item α)) (p : List β) (t : List α)
    (saved : Option (List β × List α)) : Prop :=
  ∀ sp st, saved = some (sp, st) → ∃ us : List (α → Bool),
    items sp = us.map .one ++ items p ∧ us.length ≤ st.length ∧ t = st.drop us.length

/-- The saved star can still match, if it takes one more element. -/
def Resumes (items : List β → List (Item α)) (saved : Option (List β × List α)) : Prop :=
  ∃ sp x st, saved = some (sp, x :: st) ∧ Matches (.star :: items sp) st

variable {items : List β → List (Item α)} {p : List β} {t : List α}
  {saved : Option (List β × List α)}

theorem behind_start (sp : List β) (st : List α) : Behind items sp st (some (sp, st)) := by
  rintro _ _ ⟨⟩
  exact ⟨[], by simp, Nat.zero_le _, rfl⟩

theorem Reading.matches_nil (hr : Reading isStar look items) :
    Matches (items p) [] ↔ p.all isStar = true := by
  induction p with
  | nil => simp [hr.nil, Matches.nil]
  | cons b p ih =>
      by_cases hb : isStar b = true
      · rw [(hr.star b p hb).1, List.all_cons, hb, Bool.true_and, ← ih]
        constructor
        · intro h
          obtain _ | _ | h := h
          exact h
        · exact .skip
      · rw [Bool.not_eq_true] at hb
        obtain ⟨test, more, hitems, -⟩ := hr.one b p hb
        rw [hitems, List.all_cons, hb]
        simp only [Bool.false_and, Bool.false_eq_true, iff_false]
        nofun

/-- At the end of the text there is nothing left to resume. -/
theorem Behind.not_resumes (h : Behind items p [] saved) : ¬ Resumes items saved := by
  rintro ⟨sp, x, st, hsaved, hmatch⟩
  obtain ⟨us, hitems, hle, hdrop⟩ := h sp _ hsaved
  have hlen := congrArg List.length hdrop
  obtain ⟨n, hn, htail⟩ := hmatch.exists_drop
  rw [hitems] at htail
  have := htail.drop_ones.1
  simp only [List.length_nil, List.length_drop, List.length_cons] at hlen hle this
  omega

/-- A later star replaces the saved one. -/
theorem Behind.star {q : List β} (h : Behind items p t saved) (hstar : items p = .star :: items q)
    (hresumes : Resumes items saved) : Matches (items p) t := by
  obtain ⟨sp, x, st, hsaved, hmatch⟩ := hresumes
  obtain ⟨us, hitems, -, hdrop⟩ := h sp _ hsaved
  rw [hitems, hstar] at hmatch
  have hlater := hmatch.star_of_star_ones.2
  have htail : st.drop us.length = ((x :: st).drop us.length).drop 1 := by
    rw [List.drop_drop, List.drop_succ_cons]
  rw [htail] at hlater
  rw [hstar, hdrop]
  exact hlater.star_of_drop

theorem Behind.step {test : α → Bool} {more : Nat} {x : α} {b : β}
    (h : Behind items (b :: p) (x :: t) saved)
    (hitems : items (b :: p) = .one test :: items (p.drop more)) :
    Behind items (p.drop more) t saved := by
  intro sp st hsaved
  obtain ⟨us, hus, -, hdrop⟩ := h sp st hsaved
  refine ⟨us ++ [test], by simp [hus, hitems], ?_, ?_⟩
  · have hlen := congrArg List.length hdrop
    simp only [List.length_cons, List.length_drop] at hlen
    rw [List.length_append, List.length_singleton]
    omega
  · rw [List.length_append, List.length_singleton, ← List.drop_drop, ← hdrop, List.drop_one,
      List.tail_cons]

theorem resumes_some {sp : List β} {x : α} {st : List α} :
    Resumes items (some (sp, x :: st)) ↔ Matches (.star :: items sp) st := by
  constructor
  · rintro ⟨_, _, _, ⟨⟩, h⟩
    exact h
  · exact fun h => ⟨_, _, _, rfl, h⟩

/-- A resumed star matches now or is resumed again. -/
theorem matches_or_resumes {sp : List β} {st : List α} :
    Matches (items sp) st ∨ Resumes items (some (sp, st)) ↔ Matches (.star :: items sp) st := by
  cases st with
  | nil =>
      constructor
      · rintro (h | ⟨_, _, _, ⟨⟩, -⟩)
        exact .skip h
      · intro h
        obtain _ | _ | h := h
        exact .inl h
  | cons x st => rw [resumes_some, matches_star_cons]

section Look

variable {b : β} {x : α}

theorem Reading.of_star (hr : Reading isStar look items) (h : look (b :: p) x = .star) :
    items (b :: p) = .star :: items p := by
  by_cases hb : isStar b = true
  · exact (hr.star b p hb).1
  · obtain ⟨test, more, -, hlook⟩ := hr.one b p (by simpa using hb)
    rw [hlook] at h
    split_ifs at h

theorem Reading.of_step {more : Nat} (hr : Reading isStar look items)
    (h : look (b :: p) x = .step more) :
    ∃ test, items (b :: p) = .one test :: items (p.drop more) ∧ test x = true := by
  by_cases hb : isStar b = true
  · rw [(hr.star b p hb).2] at h
    cases h
  · obtain ⟨test, more', hitems, hlook⟩ := hr.one b p (by simpa using hb)
    rw [hlook] at h
    split_ifs at h with hx
    obtain rfl := Look.step.inj h
    exact ⟨test, hitems, hx⟩

theorem Reading.of_stuck (hr : Reading isStar look items) (h : look (b :: p) x = .stuck) :
    ¬ Matches (items (b :: p)) (x :: t) := by
  by_cases hb : isStar b = true
  · rw [(hr.star b p hb).2] at h
    cases h
  · obtain ⟨test, more, hitems, hlook⟩ := hr.one b p (by simpa using hb)
    rw [hlook] at h
    split_ifs at h with hx
    rw [hitems, matches_one_cons]
    exact fun hmatch => hx hmatch.1

end Look

theorem not_resumes (h : ∀ sp x st, saved = some (sp, x :: st) → False) : ¬ Resumes items saved :=
  fun ⟨sp, x, st, hsaved, _⟩ => h sp x st hsaved

theorem greedy_eq (hr : Reading isStar look items) (h : Behind items p t saved) :
    greedy isStar look p t saved = true ↔ Matches (items p) t ∨ Resumes items saved := by
  fun_induction greedy isStar look p t saved with
  | case1 p saved => rw [← hr.matches_nil, or_iff_left h.not_resumes]
  | case2 x t sp y st ih =>
      rw [ih (behind_start sp st), matches_or_resumes, resumes_some, hr.nil, or_iff_right nofun]
  | case3 saved x t hsaved => simp [hr.nil, matches_nil_cons, not_resumes hsaved]
  | case4 saved x t b p hlook ih =>
      have hitems := hr.of_star hlook
      rw [ih (behind_start p (x :: t)), matches_or_resumes, ← hitems]
      exact (or_iff_left_of_imp (h.star hitems)).symm
  | case5 saved x t b p more hlook ih =>
      obtain ⟨test, hitems, hx⟩ := hr.of_step hlook
      rw [ih (h.step hitems), hitems, matches_one_cons, and_iff_right hx]
  | case6 x t b p hlook sp y st ih =>
      rw [ih (behind_start sp st), matches_or_resumes, resumes_some, or_iff_right (hr.of_stuck hlook)]
  | case7 saved x t b p hlook hsaved => simp [hr.of_stuck hlook, not_resumes hsaved]

/-- The loop, started without a star, answers whether the items match. -/
theorem greedy_iff (hr : Reading isStar look items) (p : List β) (t : List α) :
    greedy isStar look p t none = true ↔ Matches (items p) t := by
  have hbehind : Behind items p t none := by simp [Behind]
  have hnone : ¬ Resumes items (none : Option (List β × List α)) := by simp [Resumes]
  rw [greedy_eq hr hbehind, or_iff_left hnone]

end Loop

end Wildcard
