import Tethra.Gateway.EnvLink

set_option autoImplicit false

/-! # Extending a `NO_PROXY` list

`extendNoProxy` appends the loopback entries that a list lacks. What it returns lacks none, so that
extending it again changes nothing (`extendNoProxy_idem`): the planner meets a repeated spelling of
the variable once for each occurrence, and edits it once. -/

namespace Tethra.Gateway

open Text

theorem comma_not_ws : isWhitespace ',' = false := by decide

/-! ## The entries of a list -/

theorem splitOn_concat_char {c d : Char} (h : d ≠ c) (t : Str) :
    ∃ init last, t.splitOn c = init ++ [last] ∧ (t ++ [d]).splitOn c = init ++ [last ++ [d]] := by
  induction t with
  | nil =>
      have hd : (d == c) = false := by simpa using h
      exact ⟨[], [], by simp, by simp [List.splitOn_cons_eq_if_modifyHead, hd]⟩
  | cons x t ih =>
      obtain ⟨init, last, hcut, hcut'⟩ := ih
      rw [List.cons_append, List.splitOn_cons_eq_if_modifyHead, List.splitOn_cons_eq_if_modifyHead,
        hcut, hcut']
      split
      · exact ⟨[] :: init, last, rfl, rfl⟩
      · cases init with
        | nil => exact ⟨[], x :: last, rfl, rfl⟩
        | cons i init => exact ⟨(x :: i) :: init, last, rfl, rfl⟩

theorem trim_cons_ws {c : Char} (h : isWhitespace c = true) (t : Str) : trim (c :: t) = trim t := by
  have hws : ∀ d ∈ [c], isWhitespace d = true := by
    intro d hd
    rw [List.mem_singleton.1 hd, h]
  rw [trim, ← List.singleton_append, trimStart_ws_append hws, trim]

theorem trim_concat_ws {c : Char} (h : isWhitespace c = true) (t : Str) :
    trim (t ++ [c]) = trim t := by
  refine trim_append_of_ws fun d hd => ?_
  rw [List.mem_singleton.1 hd, h]

theorem commaEntries_cons_ws {c : Char} (h : isWhitespace c = true) (t : Str) :
    commaEntries (c :: t) = commaEntries t := by
  have hc : (c == ',') = false := by
    rw [beq_eq_false_iff_ne]
    rintro rfl
    rw [comma_not_ws] at h
    cases h
  obtain ⟨i, rest, hcut⟩ := List.exists_cons_of_ne_nil (List.splitOn_ne_nil ',' t)
  rw [commaEntries, commaEntries, List.splitOn_cons_eq_if_modifyHead, hc, hcut]
  simp [trim_cons_ws h]

theorem commaEntries_concat_ws {c : Char} (h : isWhitespace c = true) (t : Str) :
    commaEntries (t ++ [c]) = commaEntries t := by
  have hc : c ≠ ',' := by
    rintro rfl
    rw [comma_not_ws] at h
    cases h
  obtain ⟨init, last, hcut, hcut'⟩ := splitOn_concat_char hc t
  rw [commaEntries, commaEntries, hcut, hcut']
  simp [trim_concat_ws h]

theorem commaEntries_trimStart (t : Str) : commaEntries (trimStart t) = commaEntries t := by
  induction t with
  | nil => rfl
  | cons c t ih =>
      cases hc : isWhitespace c with
      | true =>
          have hstart : trimStart (c :: t) = trimStart t := by simp [trimStart, hc]
          rw [hstart, ih, commaEntries_cons_ws hc]
      | false => rw [trimStart_of_noLeadingWs (noLeadingWs_cons.2 hc)]

theorem commaEntries_trimEnd (t : Str) : commaEntries (trimEnd t) = commaEntries t := by
  induction t using List.reverseRecOn with
  | nil => rfl
  | append_singleton t c ih =>
      cases hc : isWhitespace c with
      | true =>
          have hend : trimEnd (t ++ [c]) = trimEnd t := by
            rw [trimEnd, List.rdropWhile_concat_pos _ _ _ hc]
            rfl
          rw [hend, ih, commaEntries_concat_ws hc]
      | false =>
          have hend : trimEnd (t ++ [c]) = t ++ [c] := by
            rw [trimEnd, List.rdropWhile_concat_neg _ _ _ (by simp [hc])]
          rw [hend]

theorem commaEntries_trim (t : Str) : commaEntries (trim t) = commaEntries t := by
  rw [trim, commaEntries_trimEnd, commaEntries_trimStart]

/-! ## Appending entries -/

/-- An entry that stands as it is between commas. -/
structure Entry (e : Str) : Prop where
  nonempty : e ≠ []
  noComma : ',' ∉ e
  noWs : ∀ c ∈ e, isWhitespace c = false

theorem Entry.trim_eq {e : Str} (h : Entry e) : trim e = e := by
  refine trim_of_noWs (fun c hc => h.noWs c ?_) (fun c hc => h.noWs c (List.mem_of_mem_getLast? hc))
  exact List.mem_of_mem_head? hc

theorem entry_of_all {e : Str} (h : (!e.isEmpty && e.all fun c => c != ',' && !isWhitespace c) = true) :
    Entry e := by
  simp only [Bool.and_eq_true, Bool.not_eq_true', List.isEmpty_eq_false_iff, List.all_eq_true,
    bne_iff_ne] at h
  exact ⟨h.1, fun hc => (h.2 _ hc).1 rfl, fun c hc => (h.2 c hc).2⟩

theorem entry_of_noProxyEntries {e : Str} (h : e ∈ noProxyEntries) : Entry e := by
  simp only [noProxyEntries, List.mem_cons, List.not_mem_nil, or_false] at h
  rcases h with rfl | rfl | rfl
  · exact entry_of_all (by decide)
  · exact entry_of_all (by decide)
  · exact entry_of_all (by decide)

/-- `out` with `e` appended to the list. -/
def pushEntry (out e : Str) : Str := if out.isEmpty then e else out ++ ',' :: e

theorem commaEntries_pushEntry {e : Str} (h : Entry e) (out : Str) :
    commaEntries (pushEntry out e) = commaEntries out ++ [e] := by
  have hsingle : commaEntries e = [e] := by
    rw [commaEntries, List.splitOn_eq_singleton h.noComma]
    simp [h.trim_eq, h.nonempty]
  unfold pushEntry
  cases out with
  | nil => simpa [commaEntries, trim, trimStart, trimEnd] using hsingle
  | cons c cs =>
      rw [List.isEmpty_cons]
      simp only [Bool.false_eq_true, if_false]
      rw [← hsingle, commaEntries, List.splitOn_append_cons_self, List.map_append,
        List.filter_append]
      rfl

theorem noWs_pushEntry {e : Str} (h : Entry e) {out : Str} (hl : NoLeadingWs out) :
    NoLeadingWs (pushEntry out e) ∧ NoTrailingWs (pushEntry out e) := by
  have hlast : NoTrailingWs e := fun c hc => h.noWs c (List.mem_of_mem_getLast? hc)
  have hhead : NoLeadingWs e := fun c hc => h.noWs c (List.mem_of_mem_head? hc)
  obtain ⟨d, ds, rfl⟩ := List.exists_cons_of_ne_nil h.nonempty
  unfold pushEntry
  cases out with
  | nil => exact ⟨hhead, hlast⟩
  | cons c cs =>
      refine ⟨fun x hx => hl x (by simpa using hx), ?_⟩
      have hassoc : c :: cs ++ ',' :: d :: ds = (c :: cs ++ [',']) ++ d :: ds := by simp
      rw [List.isEmpty_cons]
      simp only [Bool.false_eq_true, if_false]
      rw [hassoc]
      exact noTrailingWs_append_cons.2 hlast

/-! ## Extending twice -/

theorem foldl_pushEntry {es : List Str} (hes : ∀ e ∈ es, Entry e) {out : Str}
    (hl : NoLeadingWs out) (hr : NoTrailingWs out) :
    commaEntries (es.foldl pushEntry out) = commaEntries out ++ es ∧
      NoLeadingWs (es.foldl pushEntry out) ∧ NoTrailingWs (es.foldl pushEntry out) := by
  induction es generalizing out with
  | nil => exact ⟨by simp, hl, hr⟩
  | cons e es ih =>
      have he : Entry e := hes e (List.mem_cons_self ..)
      obtain ⟨hl', hr'⟩ := noWs_pushEntry he hl
      obtain ⟨h1, h2⟩ := ih (fun e he => hes e (List.mem_cons_of_mem _ he)) hl' hr'
      refine ⟨?_, h2⟩
      rw [List.foldl_cons, h1, commaEntries_pushEntry he]
      simp

theorem extendNoProxy_eq (current : Str) :
    extendNoProxy current = (missingEntries current).foldl pushEntry (trim current) := rfl

theorem eqIgnoreAsciiCase_refl (a : Str) : eqIgnoreAsciiCase a a = true := by
  simp [eqIgnoreAsciiCase]

/-- An extended list lacks no entry. -/
theorem missingEntries_extendNoProxy (current : Str) :
    missingEntries (extendNoProxy current) = [] := by
  have hmissing : ∀ e ∈ missingEntries current, Entry e :=
    fun e he => entry_of_noProxyEntries (List.mem_of_mem_filter he)
  have hentries : commaEntries (extendNoProxy current)
      = commaEntries current ++ missingEntries current := by
    rw [extendNoProxy_eq, (foldl_pushEntry hmissing (noLeadingWs_trim current)
      (noTrailingWs_trim current)).1, commaEntries_trim]
  rw [missingEntries, List.filter_eq_nil_iff]
  intro needed hneeded
  rw [hentries]
  by_cases hhave : (commaEntries current).any (eqIgnoreAsciiCase · needed) = true
  · simp [hhave]
  · have hmem : needed ∈ missingEntries current := by
      rw [missingEntries, List.mem_filter]
      exact ⟨hneeded, by simpa using hhave⟩
    simp only [List.any_append, Bool.not_eq_true', Bool.or_eq_true, List.any_eq_true,
      Bool.not_eq_false]
    exact .inr ⟨needed, hmem, eqIgnoreAsciiCase_refl needed⟩

/-- Extending a list twice is extending it once. -/
theorem extendNoProxy_idem (current : Str) :
    extendNoProxy (extendNoProxy current) = extendNoProxy current := by
  have hmissing : ∀ e ∈ missingEntries current, Entry e :=
    fun e he => entry_of_noProxyEntries (List.mem_of_mem_filter he)
  obtain ⟨-, hl, hr⟩ := foldl_pushEntry hmissing (noLeadingWs_trim current)
    (noTrailingWs_trim current)
  rw [extendNoProxy_eq (extendNoProxy current), missingEntries_extendNoProxy, List.foldl_nil]
  exact trim_of_noWs hl hr

end Tethra.Gateway
