import Tethra.Gateway.ApplyLink

set_option autoImplicit false

/-! # What a plan writes in the clear (`gateway/src/envlink.rs`, `plan_file`)

The record of a variable holds what was written, as text: the base URL, or an extended `NO_PROXY` list.
A list that is extended stands in the record with the entries that it had; where no list needs
extending, every text in the record is the writer's own (`planDocument_records`). -/

namespace Tethra.Gateway

open Text Slots Tethra.Core.EnvFile

/-! ## Values under an edit -/

theorem entries_placeMarker (key m : Str) (ls : List EnvLine) :
    (placeMarker key m ls).filterMap EnvLine.asEntry = ls.filterMap EnvLine.asEntry := by
  have hcut : linesBefore key ls ++ linesFrom key ls = ls := List.takeWhile_append_dropWhile
  have hmarker : (EnvLine.comment m).asEntry = none := rfl
  rw [placeMarker_eq]
  split
  · rfl
  · split
    · rename_i hlast
      cases hl : (linesBefore key ls).getLast? with
      | none =>
          rw [hl] at hlast
          cases hlast
      | some l =>
          rw [hl, Option.any_some] at hlast
          -- the stale marker that is dropped is a comment, no entry
          have hbefore : linesBefore key ls = (linesBefore key ls).dropLast ++ [l] :=
            (List.dropLast_append_getLast? l hl).symm
          have hnone : l.asEntry = none := by
            cases l with
            | entry e => cases hlast
            | blank raw => rfl
            | comment raw => rfl
            | malformed raw n r => rfl
          conv_rhs => rw [← hcut, hbefore]
          simp [hmarker, hnone]
    · conv_rhs => rw [← hcut]
      simp [hmarker]

theorem effective_setWithComment (d : EnvDocument) (key value marker key' : Str) :
    effective (d.setWithComment key value marker) key'
      = if key' = key then value else effective d key' := by
  have hset : effective (d.setWithComment key value marker) key' = effective (d.set key value) key' := by
    have hentries : (d.setWithComment key value marker).entries = (d.set key value).entries :=
      entries_placeMarker key (renderMarker marker) (d.set key value).lines
    rw [effective, effective, EnvDocument.get, EnvDocument.get, hentries]
  rw [hset]
  split
  · rename_i hk
    rw [hk, effective_set_self]
  · exact effective_set_ne ‹_› value

/-! ## The texts of a plan -/

/-- The list that is written where there is none. -/
def loopbackList : Str := [','].intercalate noProxyEntries

/-- Extending the list `s` changes nothing, or gives a text as `P` says. -/
def QuietList (P : Str → Prop) (s : Str) : Prop := extendNoProxy s = s ∨ P (extendNoProxy s)

/-- A record that a plan makes, of a text as `P` says. -/
def FreshRecord (P : Str → Prop) (v : PriorVar) : Prop :=
  ∃ key prior priorAll written, v = .fresh key prior priorAll written ∧ P written

section Plan

variable {P : Str → Prop} {baseUrl marker : Str}

theorem planVars_records (hurl : P baseUrl) (hext : P (extendNoProxy baseUrl)) {vars : List Str}
    {st : EnvDocument × List PriorVar} (hrec : ∀ v ∈ st.2, FreshRecord P v)
    (hquiet : ∀ k, isNoProxy k = true → k ∉ vars → QuietList P (effective st.1 k)) :
    (∀ v ∈ (vars.foldl (planVar baseUrl marker) st).2, FreshRecord P v) ∧
      ∀ k, isNoProxy k = true →
        QuietList P (effective (vars.foldl (planVar baseUrl marker) st).1 k) := by
  induction vars generalizing st with
  | nil => exact ⟨hrec, fun k hk => hquiet k hk (by simp)⟩
  | cons var vars ih =>
      refine ih ?_ ?_
      · intro v hv
        rcases List.mem_append.1 hv with hv | hv
        · exact hrec v hv
        · rw [List.mem_singleton.1 hv]
          exact ⟨var, _, _, baseUrl, rfl, hurl⟩
      · intro k hk hnot
        show QuietList P (effective (st.1.setWithComment var baseUrl marker) k)
        rw [effective_setWithComment]
        split
        · exact .inr hext
        · rename_i hne
          exact hquiet k hk (by simp [hne, hnot])

theorem planProxyKeys_records {keys : List Str} (hkeys : ∀ k ∈ keys, isNoProxy k = true)
    {st : EnvDocument × List PriorVar} (hrec : ∀ v ∈ st.2, FreshRecord P v)
    (hquiet : ∀ k, isNoProxy k = true → QuietList P (effective st.1 k)) :
    ∀ v ∈ (keys.foldl planProxyKey st).2, FreshRecord P v := by
  induction keys generalizing st with
  | nil => exact hrec
  | cons k keys ih =>
      have hstep : planProxyKey st k = if needsEntries st.1 k then
          (st.1.set k (extendNoProxy (effective st.1 k)), st.2 ++
            [.fresh k (some (effective st.1 k)) [] (extendNoProxy (effective st.1 k))])
          else st := rfl
      rw [List.foldl_cons, hstep]
      have hkeys' : ∀ j ∈ keys, isNoProxy j = true := fun j hj => hkeys j (List.mem_cons_of_mem _ hj)
      split
      · rename_i hneeds
        have hP : P (extendNoProxy (effective st.1 k)) :=
          (hquiet k (hkeys k (List.mem_cons_self ..))).resolve_left hneeds
        refine ih hkeys' ?_ ?_
        · intro v hv
          rcases List.mem_append.1 hv with hv | hv
          · exact hrec v hv
          · rw [List.mem_singleton.1 hv]
            exact ⟨k, _, _, _, rfl, hP⟩
        · intro j hj
          show QuietList P (effective (st.1.set k (extendNoProxy (effective st.1 k))) j)
          by_cases hjk : j = k
          · rw [hjk, effective_set_self]
            exact .inl (extendNoProxy_idem _)
          · rw [effective_set_ne hjk]
            exact hquiet j hj
      · exact ih hkeys' hrec hquiet

/-- The records of a plan are fresh, and their texts are as `P` says, if the base URL and the default list
    are and no other list is extended to anything else. -/
theorem planDocument_records (hurl : P baseUrl) (hext : P (extendNoProxy baseUrl))
    (hlist : P loopbackList) {vars : List Str} {doc : EnvDocument}
    (hquiet : ∀ k, isNoProxy k = true → k ∉ vars → QuietList P (effective doc k)) :
    ∀ v ∈ (planDocument vars baseUrl marker doc).2, FreshRecord P v := by
  obtain ⟨hrec, hquiet'⟩ : (∀ v ∈ (vars.foldl (planVar baseUrl marker) (doc, [])).2,
      FreshRecord P v) ∧ ∀ k, isNoProxy k = true →
        QuietList P (effective (vars.foldl (planVar baseUrl marker) (doc, [])).1 k) :=
    planVars_records hurl hext (fun v hv => by cases hv) hquiet
  unfold planDocument planNoProxy
  split
  · intro v hv
    rcases List.mem_append.1 hv with hv | hv
    · exact hrec v hv
    · rw [List.mem_singleton.1 hv]
      exact ⟨_, _, _, loopbackList, rfl, hlist⟩
  · refine planProxyKeys_records (fun k hk => ?_) hrec hquiet'
    exact (mem_proxyKeys.1 hk).2

end Plan

/-! ## The writer's own texts -/

/-- A text that the writer makes from a link alone. -/
def OwnText (env : Env) (s : Str) : Prop :=
  s = loopbackList ∨ ∃ port slug prefix_ providerId,
    s = linkBaseUrl env port slug prefix_ providerId ∨
      s = extendNoProxy (linkBaseUrl env port slug prefix_ providerId)

/-- Apart from the linked variables, every spelling of `NO_PROXY` in the content names the loopback, or
    nothing at all. -/
def QuietProxy (vars : List Str) (content : Str) : Prop :=
  ∀ k, isNoProxy k = true → k ∉ vars →
    let current := effective (EnvDocument.parse content) k
    extendNoProxy current = current ∨ trim current = []

theorem extendNoProxy_blank {s : Str} (h : trim s = []) : extendNoProxy s = loopbackList := by
  have hentries : commaEntries s = [] := by
    rw [← commaEntries_trim, h]
    rfl
  have hmissing : missingEntries s = noProxyEntries := by
    rw [missingEntries, hentries]
    rfl
  rw [extendNoProxy_eq, hmissing, h]
  decide

theorem QuietProxy.quietList {env : Env} {vars : List Str} {content : Str}
    (h : QuietProxy vars content) {k : Str} (hk : isNoProxy k = true) (hvars : k ∉ vars) :
    QuietList (OwnText env) (effective (EnvDocument.parse content) k) := by
  rcases h k hk hvars with hsame | hblank
  · exact .inl hsame
  · exact .inr (.inl (extendNoProxy_blank hblank))

end Tethra.Gateway
