import Tethra.Core.EnvContent
import Tethra.Gateway.NoProxy

set_option autoImplicit false

/-! # Planning as edits of slots

The rewrite that `planDocument` computes is a list of edits in the sense of `Slots.Item`: one for each
variable, marked, and one for each spelling of `NO_PROXY` that lacks an entry, unmarked, or a marked one
that creates `NO_PROXY`. `planDocument_spec` gives the list; the records of the plan are its records,
and the slots of the rewritten document are the edited slots. -/

namespace Tethra.Gateway

open Text Slots Tethra.Core.EnvFile

/-- A spelling of `NO_PROXY`. -/
def isNoProxy (key : Str) : Bool := eqIgnoreAsciiCase key "no_proxy".toList

/-- What the variables of a provider are: distinct variable names, none a spelling of `NO_PROXY`. -/
structure LinkVars (vars : List Str) : Prop where
  valid : ∀ v ∈ vars, validKey v = true
  nodup : vars.Nodup
  proxyFree : ∀ v ∈ vars, isNoProxy v = false

/-- The value a program reads for `key`. -/
def effective (doc : EnvDocument) (key : Str) : Str := ((doc.get key).map EnvEntry.value).getD []

theorem effective_eq (doc : EnvDocument) (key : Str) :
    effective doc key = (doc.values key).getLast?.getD [] := by
  rw [effective, get_value]

/-! ## The edits -/

def varItem (baseUrl : Str) (doc : EnvDocument) (var : Str) : Item Str Str where
  key := var
  written := baseUrl
  marked := true
  prior := (doc.values var).getLast?
  all := if 1 < (doc.values var).length then doc.values var else []

def proxyItem (doc : EnvDocument) (key : Str) : Item Str Str where
  key := key
  written := extendNoProxy (effective doc key)
  marked := false
  prior := some (effective doc key)
  all := []

def newProxyItem : Item Str Str where
  key := "NO_PROXY".toList
  written := [','].intercalate noProxyEntries
  marked := true
  prior := none
  all := []

/-- The spelling `key` lacks a loopback entry. -/
def needsEntries (doc : EnvDocument) (key : Str) : Prop :=
  extendNoProxy (effective doc key) ≠ effective doc key

instance (doc : EnvDocument) (key : Str) : Decidable (needsEntries doc key) :=
  inferInstanceAs (Decidable (_ ≠ _))

/-- The edits of the spellings `keys`, each at its first occurrence; `seen` are done. -/
def proxyItems (doc : EnvDocument) : List Str → List Str → List (Item Str Str)
  | _, [] => []
  | seen, k :: ks =>
      if k ∉ seen ∧ needsEntries doc k then proxyItem doc k :: proxyItems doc (k :: seen) ks
      else proxyItems doc seen ks

def linkItems (vars : List Str) (baseUrl : Str) (doc : EnvDocument) : List (Item Str Str) :=
  vars.map (varItem baseUrl doc) ++
    match proxyKeys doc with
    | [] => [newProxyItem]
    | keys => proxyItems doc [] keys

/-- The record of an edit. -/
def itemRecord (it : Item Str Str) : PriorVar := .fresh it.key it.prior it.all it.written

/-! ## What one edit changes in a document -/

theorem occs_slots (d : EnvDocument) :
    occs (d.slots fun _ => true) = d.entries.map fun e => (e.key, e.value) := by
  unfold EnvDocument.slots EnvDocument.entries
  induction d.lines with
  | nil => rfl
  | cons l ls ih =>
      cases l with
      | entry e => simp [EnvLine.slot, EnvLine.asEntry, ih]
      | blank raw => exact ih
      | comment raw => exact ih
      | malformed raw n r => exact ih

theorem proxyKeys_eq (d : EnvDocument) :
    proxyKeys d = ((occs (d.slots fun _ => true)).map Prod.fst).filter isNoProxy := by
  rw [occs_slots, proxyKeys, List.map_map, List.filter_map]
  rfl

theorem keys_set {key value : Str} (s : List EnvSlot) (h : isNoProxy key = false) :
    ((occs (Slots.set key value s)).map Prod.fst).filter isNoProxy
      = ((occs s).map Prod.fst).filter isNoProxy := by
  unfold Slots.set
  split
  · rw [occs_map_setFor, List.map_map]
    congr 1
    apply List.map_congr_left
    intro o _
    by_cases hk : o.1 = key <;> simp [hk]
  · simp [h]

section Steps

variable {d : EnvDocument} {key value marker : Str}

theorem setWithComment_slots (h : d.Faithful) (hk : validKey key = true)
    (hm : MarkerLine (renderMarker marker)) {W : Str → Bool} (hW : W key = true) :
    (d.setWithComment key value marker).slots W
      = annotate (marking hm).isMarker (marking hm).keeps key (marking hm).marker
          (Slots.set key value (d.slots W)) :=
  slots_setWithComment hW hm (h.set hk value)

theorem values_setWithComment_ne (h : d.Faithful) (hk : validKey key = true)
    (hm : MarkerLine (renderMarker marker)) {key' : Str} (hne : key' ≠ key) :
    (d.setWithComment key value marker).values key' = d.values key' := by
  rw [← values_slots (W := fun _ => true) rfl, setWithComment_slots h hk hm rfl,
    values_eq_of_occs (occs_annotate ..), values_set_ne hne, values_slots rfl]

theorem proxyKeys_setWithComment (h : d.Faithful) (hk : validKey key = true)
    (hm : MarkerLine (renderMarker marker)) (hp : isNoProxy key = false) :
    proxyKeys (d.setWithComment key value marker) = proxyKeys d := by
  rw [proxyKeys_eq, setWithComment_slots h hk hm rfl, occs_annotate, keys_set _ hp, ← proxyKeys_eq]

theorem values_set_doc_ne {key' : Str} (hne : key' ≠ key) :
    (d.set key value).values key' = d.values key' := by
  rw [← values_slots (W := fun _ => true) rfl, slots_set rfl, values_set_ne hne, values_slots rfl]

theorem effective_set_self (d : EnvDocument) (key value : Str) :
    effective (d.set key value) key = value := by
  rw [effective_eq, ← values_slots (W := fun _ => true) rfl, slots_set rfl, values_set_self]
  split
  · rename_i h
    have hne := present_iff_values.1 h
    cases hv : Slots.values key (d.slots fun _ => true) using List.reverseRecOn with
    | nil => exact absurd hv hne
    | append_singleton vs v => simp
  · rfl

theorem trailingNewline_set (d : EnvDocument) (key value : Str) :
    (d.set key value).trailingNewline = d.trailingNewline := by
  unfold EnvDocument.set
  split <;> rfl

theorem lines_set_ne_nil (d : EnvDocument) (key value : Str) : (d.set key value).lines ≠ [] := by
  unfold EnvDocument.set
  split
  · rename_i h
    intro hnil
    simp only [List.map_eq_nil_iff] at hnil
    simp [hnil] at h
  · simp

theorem lines_setWithComment_ne_nil (d : EnvDocument) (key value marker : Str) :
    (d.setWithComment key value marker).lines ≠ [] := by
  intro hnil
  have h := lines_set_ne_nil d key value
  simp only [EnvDocument.setWithComment, placeMarker_eq] at hnil
  split at hnil
  · exact h hnil
  · split at hnil <;> simp at hnil

end Steps

/-! ## The plan as a list of edits -/

/-- A document and its records are the result of the edits `items` on `d`. -/
structure Planned {m : Str} (hm : MarkerLine m) (d : EnvDocument) (items : List (Item Str Str))
    (st : EnvDocument × List PriorVar) : Prop where
  records : st.2 = items.map itemRecord
  slots : ∀ W : Str → Bool, (∀ it ∈ items, W it.key = true) →
    st.1.slots W = linkAll (marking hm) items (d.slots W)
  faithful : st.1.Faithful
  trailing : st.1.trailingNewline = d.trailingNewline
  closed : st.1.lines = [] → d.lines = []

theorem Planned.nil {m : Str} (hm : MarkerLine m) {d : EnvDocument} (h : d.Faithful) :
    Planned hm d [] (d, []) where
  records := rfl
  slots _ _ := rfl
  faithful := h
  trailing := rfl
  closed h := h

theorem linkAll_append {κ ν τ : Type} [DecidableEq κ] (M : Marking τ) (a b : List (Item κ ν))
    (s : List (Slot κ ν τ)) : linkAll M (a ++ b) s = linkAll M b (linkAll M a s) := by
  simp [linkAll]

theorem Planned.marked {marker : Str} {hm : MarkerLine (renderMarker marker)} {d : EnvDocument}
    {items : List (Item Str Str)} {st : EnvDocument × List PriorVar} (h : Planned hm d items st)
    {it : Item Str Str} (hk : validKey it.key = true) (hmark : it.marked = true) :
    Planned hm d (items ++ [it])
      (st.1.setWithComment it.key it.written marker, st.2 ++ [itemRecord it]) where
  records := by rw [h.records, List.map_append, List.map_singleton]
  slots W hW := by
    rw [setWithComment_slots h.faithful hk hm (hW it (by simp)),
      h.slots W fun i hi => hW i (List.mem_append_left _ hi), linkAll_append]
    simp [linkAll, linkItem, hmark]
  faithful := h.faithful.setWithComment hk it.written hm
  trailing := (trailingNewline_set st.1 it.key it.written).trans h.trailing
  closed hnil := absurd hnil (lines_setWithComment_ne_nil _ _ _ _)

theorem Planned.unmarked {m : Str} {hm : MarkerLine m} {d : EnvDocument}
    {items : List (Item Str Str)} {st : EnvDocument × List PriorVar} (h : Planned hm d items st)
    {it : Item Str Str} (hk : validKey it.key = true) (hmark : it.marked = false) :
    Planned hm d (items ++ [it]) (st.1.set it.key it.written, st.2 ++ [itemRecord it]) where
  records := by rw [h.records, List.map_append, List.map_singleton]
  slots W hW := by
    rw [slots_set (hW it (by simp)), h.slots W fun i hi => hW i (List.mem_append_left _ hi),
      linkAll_append]
    simp [linkAll, linkItem, hmark]
  faithful := h.faithful.set hk it.written
  trailing := (trailingNewline_set st.1 it.key it.written).trans h.trailing
  closed hnil := absurd hnil (lines_set_ne_nil _ _ _)

/-- The loop over the variables: each is recorded as it was before the plan. -/
theorem planned_vars {marker baseUrl : Str} {hm : MarkerLine (renderMarker marker)}
    {d : EnvDocument} {vars : List Str} (hvalid : ∀ v ∈ vars, validKey v = true)
    (hproxy : ∀ v ∈ vars, isNoProxy v = false) (hnodup : vars.Nodup)
    {items : List (Item Str Str)} {st : EnvDocument × List PriorVar} (h : Planned hm d items st)
    (hval : ∀ v ∈ vars, st.1.values v = d.values v) (hkeys : proxyKeys st.1 = proxyKeys d)
    (hother : ∀ k, isNoProxy k = true → st.1.values k = d.values k) :
    let st' := vars.foldl (planVar baseUrl marker) st
    Planned hm d (items ++ vars.map (varItem baseUrl d)) st' ∧ proxyKeys st'.1 = proxyKeys d ∧
      ∀ k, isNoProxy k = true → st'.1.values k = d.values k := by
  induction vars generalizing items st with
  | nil => exact ⟨by simpa using h, hkeys, hother⟩
  | cons v vars ih =>
      obtain ⟨hv, hnodup'⟩ := List.nodup_cons.1 hnodup
      have hvk : validKey v = true := hvalid v (List.mem_cons_self ..)
      have hvp : isNoProxy v = false := hproxy v (List.mem_cons_self ..)
      have hstep : planVar baseUrl marker st v
          = (st.1.setWithComment v baseUrl marker, st.2 ++ [itemRecord (varItem baseUrl d v)]) := by
        have hcur : st.1.values v = d.values v := hval v (List.mem_cons_self ..)
        rw [planVar, get_value, hcur]
        rfl
      have hne : ∀ k, k ≠ v → (planVar baseUrl marker st v).1.values k = st.1.values k := by
        intro k hk
        rw [hstep]
        exact values_setWithComment_ne h.faithful hvk hm hk
      have hplanned : Planned hm d (items ++ [varItem baseUrl d v]) (planVar baseUrl marker st v) := by
        rw [hstep]
        exact Planned.marked h hvk rfl
      have hrest := ih (fun w hw => hvalid w (List.mem_cons_of_mem _ hw))
        (fun w hw => hproxy w (List.mem_cons_of_mem _ hw)) hnodup' hplanned
        (fun w hw => by
          rw [hne w fun hwv => hv (hwv ▸ hw)]
          exact hval w (List.mem_cons_of_mem _ hw))
        (by rw [hstep, proxyKeys_setWithComment h.faithful hvk hm hvp, hkeys])
        (fun k hk => by
          rw [hne k fun hkv => by rw [hkv, hvp] at hk; cases hk]
          exact hother k hk)
      simpa using hrest

theorem effective_set_ne {d : EnvDocument} {key key' : Str} (hne : key' ≠ key) (value : Str) :
    effective (d.set key value) key' = effective d key' := by
  rw [effective_eq, effective_eq, values_set_doc_ne hne]

/-- The loop over the spellings of `NO_PROXY`: a spelling that is done needs nothing more, so that its
    further occurrences are skipped. -/
theorem planned_proxies {m : Str} {hm : MarkerLine m} {d : EnvDocument} {keys seen : List Str}
    (hvalid : ∀ k ∈ keys, validKey k = true) {items : List (Item Str Str)}
    {st : EnvDocument × List PriorVar} (h : Planned hm d items st)
    (hseen : ∀ k ∈ seen, ¬needsEntries st.1 k)
    (hother : ∀ k ∈ keys, k ∉ seen → effective st.1 k = effective d k) :
    Planned hm d (items ++ proxyItems d seen keys) (keys.foldl planProxyKey st) := by
  induction keys generalizing items seen st with
  | nil => simpa [proxyItems] using h
  | cons k keys ih =>
      have hvalid' : ∀ k ∈ keys, validKey k = true := fun j hj => hvalid j (List.mem_cons_of_mem _ hj)
      have hstep : planProxyKey st k = if needsEntries st.1 k then
          (st.1.set k (extendNoProxy (effective st.1 k)), st.2 ++
            [.fresh k (some (effective st.1 k)) [] (extendNoProxy (effective st.1 k))])
          else st := rfl
      rw [List.foldl_cons, proxyItems]
      -- a spelling is extended at the first of its occurrences, after which it lacks nothing
      by_cases hk : k ∉ seen ∧ needsEntries d k
      · have heff : effective st.1 k = effective d k := hother k (List.mem_cons_self ..) hk.1
        have hneeds : needsEntries st.1 k := by
          rw [needsEntries, heff]
          exact hk.2
        have hplanned : Planned hm d (items ++ [proxyItem d k])
            (st.1.set k (extendNoProxy (effective d k)), st.2 ++ [itemRecord (proxyItem d k)]) :=
          h.unmarked (hvalid k (List.mem_cons_self ..)) rfl
        have hassoc : items ++ proxyItem d k :: proxyItems d (k :: seen) keys
            = (items ++ [proxyItem d k]) ++ proxyItems d (k :: seen) keys := by simp
        rw [if_pos hk, hstep, if_pos hneeds, heff, hassoc]
        refine ih hvalid' hplanned ?_ ?_
        · intro j hj
          show ¬needsEntries (st.1.set k (extendNoProxy (effective d k))) j
          by_cases hjk : j = k
          · rw [hjk, needsEntries, effective_set_self, extendNoProxy_idem, not_not]
          · rw [needsEntries, effective_set_ne hjk]
            exact hseen j ((List.mem_cons.1 hj).resolve_left hjk)
        · intro j hjm hj
          simp only [List.mem_cons, not_or] at hj
          show effective (st.1.set k (extendNoProxy (effective d k))) j = _
          rw [effective_set_ne hj.1, hother j (List.mem_cons_of_mem _ hjm) hj.2]
      · have hneeds : ¬needsEntries st.1 k := by
          intro hn
          by_cases hks : k ∈ seen
          · exact hseen k hks hn
          · rw [needsEntries, hother k (List.mem_cons_self ..) hks] at hn
            exact hk ⟨hks, hn⟩
        rw [if_neg hk, hstep, if_neg hneeds]
        exact ih hvalid' h hseen fun j hj => hother j (List.mem_cons_of_mem _ hj)

theorem validKey_noProxy : validKey "NO_PROXY".toList = true := by decide

theorem isNoProxy_noProxy : isNoProxy "NO_PROXY".toList = true := by decide

theorem mem_proxyKeys {d : EnvDocument} {k : Str} :
    k ∈ proxyKeys d ↔ d.values k ≠ [] ∧ isNoProxy k = true := by
  simp only [proxyKeys, EnvDocument.values, List.mem_map, List.mem_filter, ne_eq,
    List.map_eq_nil_iff, List.filter_eq_nil_iff, decide_eq_true_eq, not_forall, not_not]
  constructor
  · rintro ⟨e, ⟨he, hp⟩, rfl⟩
    exact ⟨⟨e, he, rfl⟩, hp⟩
  · rintro ⟨⟨e, he, rfl⟩, hp⟩
    exact ⟨e, ⟨he, hp⟩, rfl⟩

theorem validKey_of_mem_proxyKeys {d : EnvDocument} (h : d.Faithful) {k : Str}
    (hk : k ∈ proxyKeys d) : validKey k = true := by
  simp only [proxyKeys, List.mem_map, List.mem_filter] at hk
  obtain ⟨e, ⟨he, -⟩, rfl⟩ := hk
  exact h.validKey he

/-- Planning a document is making the edits `linkItems`. -/
theorem planDocument_spec {vars : List Str} (hvars : LinkVars vars) {baseUrl marker : Str}
    (hm : MarkerLine (renderMarker marker)) {d : EnvDocument} (h : d.Faithful) :
    Planned hm d (linkItems vars baseUrl d) (planDocument vars baseUrl marker d) := by
  obtain ⟨hplanned, hkeys, hother⟩ : Planned hm d ([] ++ vars.map (varItem baseUrl d))
      (vars.foldl (planVar baseUrl marker) (d, [])) ∧ _ ∧ _ :=
    planned_vars hvars.valid hvars.proxyFree hvars.nodup (Planned.nil hm h) (fun _ _ => rfl) rfl
      (fun _ _ => rfl)
  rw [List.nil_append] at hplanned
  rw [planDocument, planNoProxy, linkItems, hkeys]
  cases hk : proxyKeys d with
  | nil => exact Planned.marked hplanned validKey_noProxy rfl
  | cons k ks =>
      refine planned_proxies ?_ hplanned (fun _ hj => by cases hj) ?_
      · intro j hj
        exact validKey_of_mem_proxyKeys h (hk ▸ hj)
      · intro j hj _
        rw [effective_eq, effective_eq, hother j (mem_proxyKeys.1 (hk ▸ hj)).2]

/-! ## The edits, one by one -/

theorem mem_proxyItems {d : EnvDocument} {seen keys : List Str} {it : Item Str Str} :
    it ∈ proxyItems d seen keys ↔
      ∃ k ∈ keys, k ∉ seen ∧ needsEntries d k ∧ it = proxyItem d k := by
  induction keys generalizing seen with
  | nil => simp [proxyItems]
  | cons k keys ih =>
      rw [proxyItems]
      split
      · rename_i hk
        rw [List.mem_cons, ih]
        constructor
        · rintro (rfl | ⟨j, hj, hjs, hn, rfl⟩)
          · exact ⟨k, List.mem_cons_self .., hk.1, hk.2, rfl⟩
          · simp only [List.mem_cons, not_or] at hjs
            exact ⟨j, List.mem_cons_of_mem _ hj, hjs.2, hn, rfl⟩
        · rintro ⟨j, hj, hjs, hn, rfl⟩
          by_cases hjk : j = k
          · exact .inl (by rw [hjk])
          · exact .inr ⟨j, (List.mem_cons.1 hj).resolve_left hjk, by simp [hjk, hjs], hn, rfl⟩
      · rename_i hk
        rw [ih]
        constructor
        · rintro ⟨j, hj, h⟩
          exact ⟨j, List.mem_cons_of_mem _ hj, h⟩
        · rintro ⟨j, hj, hjs, hn, rfl⟩
          rcases List.mem_cons.1 hj with rfl | hj
          · exact absurd ⟨hjs, hn⟩ hk
          · exact ⟨j, hj, hjs, hn, rfl⟩

theorem nodup_proxyItems (d : EnvDocument) (seen keys : List Str) :
    ((proxyItems d seen keys).map Item.key).Nodup := by
  induction keys generalizing seen with
  | nil => exact List.nodup_nil
  | cons k keys ih =>
      rw [proxyItems]
      split
      · rw [List.map_cons, List.nodup_cons]
        refine ⟨?_, ih (k :: seen)⟩
        intro hm
        obtain ⟨it, hit, hkey⟩ := List.mem_map.1 hm
        obtain ⟨j, -, hjs, -, rfl⟩ := mem_proxyItems.1 hit
        exact hjs (List.mem_cons.2 (.inl hkey))
      · exact ih seen

/-- Which keys a link writes. -/
def Writes (vars : List Str) (d : EnvDocument) (key : Str) : Prop :=
  key ∈ vars ∨ (proxyKeys d = [] ∧ key = "NO_PROXY".toList) ∨
    (key ∈ proxyKeys d ∧ needsEntries d key)

theorem mem_linkItems {vars : List Str} {baseUrl : Str} {d : EnvDocument} {it : Item Str Str} :
    it ∈ linkItems vars baseUrl d ↔ (∃ v ∈ vars, it = varItem baseUrl d v) ∨
      (proxyKeys d = [] ∧ it = newProxyItem) ∨
      (∃ k ∈ proxyKeys d, needsEntries d k ∧ it = proxyItem d k) := by
  rw [linkItems, List.mem_append, List.mem_map]
  refine or_congr ⟨fun ⟨v, hv, h⟩ => ⟨v, hv, h.symm⟩, fun ⟨v, hv, h⟩ => ⟨v, hv, h.symm⟩⟩ ?_
  cases hk : proxyKeys d with
  | nil => simp
  | cons k ks =>
      rw [mem_proxyItems]
      simp

theorem writes_iff {vars : List Str} (baseUrl : Str) {d : EnvDocument} {key : Str} :
    Writes vars d key ↔ ∃ it ∈ linkItems vars baseUrl d, it.key = key := by
  constructor
  · rintro (h | ⟨hk, rfl⟩ | ⟨hk, hn⟩)
    · exact ⟨varItem baseUrl d key, mem_linkItems.2 (.inl ⟨key, h, rfl⟩), rfl⟩
    · exact ⟨newProxyItem, mem_linkItems.2 (.inr (.inl ⟨hk, rfl⟩)), rfl⟩
    · exact ⟨proxyItem d key, mem_linkItems.2 (.inr (.inr ⟨key, hk, hn, rfl⟩)), rfl⟩
  · rintro ⟨it, hit, rfl⟩
    rcases mem_linkItems.1 hit with ⟨v, hv, rfl⟩ | ⟨hk, rfl⟩ | ⟨k, hk, hn, rfl⟩
    · exact .inl hv
    · exact .inr (.inl ⟨hk, rfl⟩)
    · exact .inr (.inr ⟨hk, hn⟩)

theorem nodup_linkItems {vars : List Str} (hvars : LinkVars vars) (baseUrl : Str)
    (d : EnvDocument) : ((linkItems vars baseUrl d).map Item.key).Nodup := by
  have hleft : (vars.map (varItem baseUrl d)).map Item.key = vars := by
    simp [List.map_map, Function.comp_def, varItem]
  rw [linkItems, List.map_append, hleft, List.nodup_append]
  refine ⟨hvars.nodup, ?_, ?_⟩
  · split
    · simp
    · exact nodup_proxyItems d [] _
  · intro v hv k hk hvk
    have hfree : isNoProxy k = false := hvk ▸ hvars.proxyFree v hv
    have hproxy : isNoProxy k = true := by
      obtain ⟨it, hit, rfl⟩ := List.mem_map.1 hk
      split at hit
      · rw [List.mem_singleton.1 hit]
        exact isNoProxy_noProxy
      · obtain ⟨j, hj, -, -, rfl⟩ := mem_proxyItems.1 hit
        exact (mem_proxyKeys.1 hj).2
    rw [hproxy] at hfree
    cases hfree

end Tethra.Gateway
