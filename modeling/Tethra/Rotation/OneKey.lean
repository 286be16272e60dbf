import Tethra.Rotation.DeadKey

set_option autoImplicit false

/-! # One provider key for a rotation

The creation of the replacement is claimed by a swap into `creating_in_progress`, and the key is recorded
behind the provider's answer. Until then a later advance loads the claimed row and creates a key of its
own. When no advance comes in between, the provider creates at most one key for the rotation. -/

namespace Tethra.Rotations

open Interleave Runs

/-- The provider answered a creation for the rotation with a key. -/
def created (id : Str) : Event Answer CoreError → Bool
  | ⟨.request (.createCredential id'), .ok _⟩ => id' = id
  | _ => false

/-- The rotation that an advance sets out to create a key for, with the row it loads. -/
def licensing : Event Answer CoreError → Option Str
  | ⟨.load .advance _, .ok (some row)⟩ => if row.licenses then some row.id else none
  | _ => none

def creation (p : Proc Answer CoreError Rotation) : Creation :=
  (p.knows discipline Knows.start).creation

/-- The process goes on to create a key for the rotation. -/
def Creating (p : Proc Answer CoreError Rotation) (id : Str) : Prop :=
  p.prog.isSome = true ∧ creation p = .licensed id

instance (p : Proc Answer CoreError Rotation) (id : Str) : Decidable (Creating p id) :=
  inferInstanceAs (Decidable (_ ∧ _))

/-- An advance sets out to create a key only while no other one is at it, and no key was created for the
    rotation that its row does not know, also by a process that crashed. -/
def Alone (w : World Db Answer CoreError Rotation) (p : Proc Answer CoreError Rotation)
    (e : Event Answer CoreError) : Prop :=
  ∀ id ∈ licensing e, creation p = .idle ∧
    ∀ q ∈ w.procs, ¬Creating q id ∧ creation q ≠ .made id

instance (w : World Db Answer CoreError Rotation) (p : Proc Answer CoreError Rotation)
    (e : Event Answer CoreError) : Decidable (Alone w p e) :=
  inferInstanceAs (Decidable (∀ id ∈ licensing e, _ ∧ ∀ q ∈ w.procs, _ ∧ _))

/-- The row knows of a created key. -/
def Rotation.keyed (row : Rotation) : Bool := row.newProviderKeyId.isSome || row.newVersion.isSome

/-- The action records a created key in the row. -/
def Action.records (id : Str) : Action → Bool
  | .setField id' (.newProviderKeyId _) | .setVersions id' _ _ => id' = id
  | _ => false

/-! ## What a process knows of the creation -/

theorem licensed_next {k : Knows} {a : Action} {r : Except CoreError (Answer a)} {id : Str}
    (h : (k.next a r).creation = .licensed id) :
    k.creation = .licensed id ∨ licensing ⟨a, r⟩ = some id := by
  have hgiveUp : ∀ c : Creation, c.giveUp ≠ .licensed id := by
    intro c
    cases c <;> simp [Creation.giveUp]
  have hrecorded : ∀ (c : Creation) (id' : Str), c.recorded id' = .licensed id → c = .licensed id := by
    intro c id' h
    unfold Creation.recorded at h
    split_ifs at h
    exact h
  unfold Knows.next at h
  split at h
  all_goals first
    | exact .inl h
    | exact absurd h (hgiveUp _)
    | exact .inl (hrecorded _ _ h)
    | cases h
    | skip
  rename_i id' row
  have hreload : k.creation.reload row = .licensed id := h
  unfold Creation.reload at hreload
  unfold licensing
  split_ifs at hreload with hrow
  · simp only [hrow, if_true]
    exact .inr (congrArg some (Creation.licensed.inj hreload))
  · exact absurd hreload (hgiveUp _)

theorem made_next {k : Knows} {a : Action} {r : Except CoreError (Answer a)} {id : Str}
    (h : (k.next a r).creation = .made id) : k.creation = .made id ∨ created id ⟨a, r⟩ = true := by
  have hgiveUp : ∀ c : Creation, c.giveUp = .made id → c = .made id := by
    intro c hc
    cases c with
    | made id' => exact hc
    | _ => cases hc
  have hrecorded : ∀ (c : Creation) (id' : Str), c.recorded id' = .made id → c = .made id := by
    intro c id' h
    unfold Creation.recorded at h
    split_ifs at h
    exact h
  unfold Knows.next at h
  split at h
  all_goals first
    | exact .inl h
    | exact .inl (hgiveUp _ h)
    | exact .inl (hrecorded _ _ h)
    | skip
  · rename_i id' row
    have hreload : k.creation.reload row = .made id := h
    unfold Creation.reload at hreload
    split_ifs at hreload
    exact .inl (hgiveUp _ hreload)
  · rename_i id' key
    have hmade : Creation.made id' = .made id := h
    exact .inr (decide_eq_true (Creation.made.inj hmade))
  · cases h

/-- A created key is known to its process until it is recorded. -/
theorem made_kept {k : Knows} {a : Action} {r : Except CoreError (Answer a)} {id : Str}
    (h : k.creation = .made id) (hallowed : k.allowed a) (hload : licensing ⟨a, r⟩ = none) :
    (k.next a r).creation = .made id ∨ a.records id = true ∧ ∃ x, r = .ok x := by
  have hgiveUp : k.creation.giveUp = .made id := by
    rw [h]
    rfl
  have hrecorded : ∀ id', k.creation.recorded id' = .made id ∨ id' = id := by
    intro id'
    unfold Creation.recorded
    rw [h]
    by_cases hid : Creation.made id = .made id'
    · exact .inr (Creation.made.inj hid).symm
    · rw [if_neg hid]
      exact .inl rfl
  unfold Knows.next
  split
  all_goals first
    | exact .inl h
    | exact .inl hgiveUp
    | skip
  · rename_i id' row
    refine .inl ?_
    show k.creation.reload row = .made id
    unfold Creation.reload
    have hload' : (if row.licenses then some row.id else none) = none := hload
    split_ifs at hload' with hrow
    rw [if_neg hrow]
    exact hgiveUp
  · rename_i id' key x
    rcases hrecorded id' with hkept | hid
    · exact .inl hkept
    · exact .inr ⟨decide_eq_true hid, x, rfl⟩
  · rename_i id' old new x
    rcases hrecorded id' with hkept | hid
    · exact .inl hkept
    · exact .inr ⟨decide_eq_true hid, x, rfl⟩
  · rename_i id' key
    have hlicensed : k.creation = .licensed id' := hallowed
    rw [h] at hlicensed
    cases hlicensed
  · rename_i id' error
    have hlicensed : k.creation = .licensed id' := hallowed
    rw [h] at hlicensed
    cases hlicensed

/-! ## Rows -/

/-- A row that knows of a key keeps it. -/
theorem Action.keyed_effect {db : Db} (a : Action) {s : Rotation} (hs : s ∈ db.rotations)
    (hkeyed : s.keyed = true) : ∃ t ∈ (a.effect db).rotations, t.id = s.id ∧ t.keyed = true := by
  have hupdate : ∀ (id : Str) (f : Rotation → Rotation),
      (∀ r, (f r).id = r.id ∧ (r.keyed = true → (f r).keyed = true)) →
        ∃ t ∈ (db.update id f).rotations, t.id = s.id ∧ t.keyed = true := by
    intro id f hf
    refine ⟨_, List.mem_map_of_mem hs, ?_⟩
    split
    · exact ⟨(hf s).1, (hf s).2 hkeyed⟩
    · exact ⟨rfl, hkeyed⟩
  cases a with
  | swapState id fromState toState =>
      refine hupdate id _ fun r => ?_
      split
      · exact ⟨rfl, fun h => h⟩
      · exact ⟨rfl, fun h => h⟩
  | insertRow row => exact ⟨s, List.mem_append_left _ hs, rfl, hkeyed⟩
  | setError id error =>
      exact hupdate id (fun r => { r with lastError := error }) fun _ => ⟨rfl, fun h => h⟩
  | setField id field =>
      refine hupdate id field.set fun r => ?_
      cases field with
      | newProviderKeyId key => exact ⟨rfl, fun _ => rfl⟩
      | _ => exact ⟨rfl, fun h => h⟩
  | setVersions id old new =>
      exact hupdate id (fun r => { r with oldVersion := old, newVersion := some new })
        fun r => ⟨rfl, fun _ => Bool.or_true _⟩
  | markValidated id =>
      exact hupdate id (fun r => { r with newValueValidated := true }) fun _ => ⟨rfl, fun h => h⟩
  | load reader id => exact ⟨s, hs, rfl, hkeyed⟩
  | countActive credentialId id => exact ⟨s, hs, rfl, hkeyed⟩
  | recordEvent id fromState toState detail => exact ⟨s, hs, rfl, hkeyed⟩
  | recordNote id state note => exact ⟨s, hs, rfl, hkeyed⟩
  | events id => exact ⟨s, hs, rfl, hkeyed⟩
  | request q => exact ⟨s, hs, rfl, hkeyed⟩

/-- A row behind the recording of its key knows of it. -/
theorem Action.keyed_of_records {db : Db} {a : Action} {s : Rotation} (hs : s ∈ db.rotations)
    (h : a.records s.id = true) : ∃ t ∈ (a.effect db).rotations, t.id = s.id ∧ t.keyed = true := by
  have hupdate : ∀ f : Rotation → Rotation, (f s).id = s.id → (f s).keyed = true →
      ∃ t ∈ (db.update s.id f).rotations, t.id = s.id ∧ t.keyed = true := by
    intro f hid hkeyed
    refine ⟨_, List.mem_map_of_mem hs, ?_⟩
    rw [if_pos rfl]
    exact ⟨hid, hkeyed⟩
  unfold Action.records at h
  split at h
  · obtain rfl := of_decide_eq_true h
    exact hupdate _ rfl rfl
  · obtain rfl := of_decide_eq_true h
    exact hupdate _ rfl (Bool.or_true _)
  · cases h

/-! ## The invariant -/

def KeyOf (db : Db) (id : Str) : Prop := ∃ row ∈ db.rotations, row.id = id ∧ row.keyed = true

structure OneKey (id : Str) (w : World Db Answer CoreError Rotation) : Prop where
  wellFormed : w.state.WellFormed
  once : w.trace.countP (created id) ≤ 1
  /-- Who is about to create a key is the first one. -/
  first : ∀ p ∈ w.procs, Creating p id → w.trace.countP (created id) = 0
  single : ∀ (i j : Nat) (p q : Proc Answer CoreError Rotation), w.procs[i]? = some p →
    w.procs[j]? = some q → Creating p id → Creating q id → i = j
  /-- A created key is known to its row or to the process that created it. -/
  kept : 0 < w.trace.countP (created id) → KeyOf w.state id ∨ ∃ p ∈ w.procs, creation p = .made id
  known : ∀ p ∈ w.procs, creation p = .licensed id ∨ creation p = .made id →
    ∃ row ∈ w.state.rotations, row.id = id

/-- The process at a place behind an action: the one that acted, or the one that was there. -/
theorem procs_perform {w : World Db Answer CoreError Rotation} {db' : Db} {i j : Nat}
    {p q : Proc Answer CoreError Rotation} {e : Event Answer CoreError}
    (h : (w.perform db' i p e).procs[j]? = some q) :
    (i = j ∧ q = p) ∨ (i ≠ j ∧ w.procs[j]? = some q) := by
  have hset : (w.procs.set i p)[j]? = some q := h
  rw [List.getElem?_set] at hset
  split_ifs at hset with hij hlt
  · exact .inl ⟨hij, (Option.some.inj hset).symm⟩
  · exact .inr ⟨hij, hset⟩

section Act

variable {id : Str} {w : World Db Answer CoreError Rotation} {i : Nat}
  {p : Proc Answer CoreError Rotation} {a : Action} {next : Prog Rotation}
  {r : Except CoreError (Answer a)} {db' : Db}

/-- No row is lost. -/
theorem exec_rows (hexec : Exec w.state a r db') {row : Rotation} (hrow : row ∈ w.state.rotations) :
    ∃ t ∈ db'.rotations, t.id = row.id := by
  cases r with
  | error e =>
      obtain rfl : db' = w.state := hexec
      exact ⟨row, hrow, rfl⟩
  | ok x =>
      obtain ⟨-, rfl⟩ := hexec
      obtain ⟨t, ht, hsame⟩ := a.identity_effect _ hrow
      simp only [Rotation.identity, Prod.mk.injEq] at hsame
      exact ⟨t, ht, hsame.1⟩

theorem KeyOf.exec (h : KeyOf w.state id) (hexec : Exec w.state a r db') : KeyOf db' id := by
  obtain ⟨row, hrow, rfl, hkeyed⟩ := h
  cases r with
  | error e =>
      obtain rfl : db' = w.state := hexec
      exact ⟨row, hrow, rfl, hkeyed⟩
  | ok x =>
      obtain ⟨-, rfl⟩ := hexec
      exact a.keyed_effect hrow hkeyed

theorem creation_perform (p : Proc Answer CoreError Rotation) (next : Prog Rotation)
    (r : Except CoreError (Answer a)) :
    creation (p.perform next ⟨a, r⟩) = ((p.knows discipline Knows.start).next a r).creation := by
  unfold creation
  rw [Proc.knows_perform]
  rfl

/-- Processes that know of a key of the rotation know a row of the store. -/
theorem OneKey.known_act (hw : OneKey id w) (hp : p ∈ w.procs)
    (hallowed : (p.knows discipline Knows.start).allowed a) (hexec : Exec w.state a r db') :
    ∀ q ∈ (w.perform db' i (p.perform next ⟨a, r⟩) ⟨a, r⟩).procs,
      creation q = .licensed id ∨ creation q = .made id → ∃ row ∈ db'.rotations, row.id = id := by
  have hkeep : (∃ row ∈ w.state.rotations, row.id = id) → ∃ row ∈ db'.rotations, row.id = id := by
    rintro ⟨row, hrow, rfl⟩
    exact exec_rows hexec hrow
  intro q hq hcreation
  rcases List.mem_or_eq_of_mem_set hq with hq | rfl
  · exact hkeep (hw.known q hq hcreation)
  · rw [creation_perform] at hcreation
    rcases hcreation with hlicensed | hmade
    · rcases licensed_next hlicensed with hlicensed | hload
      · exact hkeep (hw.known p hp (.inl hlicensed))
      · unfold licensing at hload
        split at hload
        · rename_i id' row heq
          split_ifs at hload
          injection heq with ha hr
          subst ha
          obtain rfl := eq_of_heq hr
          obtain ⟨hrow, rfl⟩ := hexec
          exact ⟨row, List.mem_of_find?_eq_some hrow.symm, Option.some.inj hload⟩
        · cases hload
    · rcases made_next hmade with hmade | hcreated
      · exact hkeep (hw.known p hp (.inr hmade))
      · unfold created at hcreated
        split at hcreated
        · rename_i id' key heq
          injection heq with ha hr
          subst ha
          obtain rfl := of_decide_eq_true hcreated
          exact hkeep (hw.known p hp (.inl hallowed))
        · cases hcreated

/-- An action that neither creates a key for the rotation nor sets out to. -/
theorem OneKey.act_other (hw : OneKey id w) (hp : w.procs[i]? = some p)
    (hprog : p.prog.isSome = true) (hallowed : (p.knows discipline Knows.start).allowed a)
    (hexec : Exec w.state a r db') (hcond : Alone w p ⟨a, r⟩)
    (hcreated : created id ⟨a, r⟩ = false) (hload : licensing ⟨a, r⟩ ≠ some id) :
    OneKey id (w.perform db' i (p.perform next ⟨a, r⟩) ⟨a, r⟩) := by
  have hmem : p ∈ w.procs := List.mem_of_getElem? hp
  have hcount : (w.perform db' i (p.perform next ⟨a, r⟩) ⟨a, r⟩).trace.countP (created id)
      = w.trace.countP (created id) := by
    simp [World.perform, List.countP_append, hcreated]
  -- Who is creating the key was creating it before.
  have hcreating : Creating (p.perform next ⟨a, r⟩) id → Creating p id := by
    rintro ⟨-, h⟩
    rw [creation_perform] at h
    exact ⟨hprog, (licensed_next h).resolve_right hload⟩
  refine ⟨hw.wellFormed.exec hexec, ?_, ?_, ?_, ?_, hw.known_act hmem hallowed hexec⟩
  · exact hcount.symm ▸ hw.once
  · intro q hq hq'
    refine hcount.trans ?_
    rcases List.mem_or_eq_of_mem_set hq with hq | rfl
    · exact hw.first q hq hq'
    · exact hw.first p hmem (hcreating hq')
  · intro j j' q q' hj hj' hq hq'
    rcases procs_perform hj with ⟨rfl, rfl⟩ | ⟨hne, hj⟩
    · rcases procs_perform hj' with ⟨rfl, rfl⟩ | ⟨hne', hj'⟩
      · rfl
      · exact hw.single _ _ _ _ hp hj' (hcreating hq) hq'
    · rcases procs_perform hj' with ⟨rfl, rfl⟩ | ⟨hne', hj'⟩
      · exact hw.single _ _ _ _ hj hp hq (hcreating hq')
      · exact hw.single _ _ _ _ hj hj' hq hq'
  · intro hpos
    rcases hw.kept (hcount ▸ hpos) with hkey | ⟨q, hq, hmade⟩
    · exact .inl (hkey.exec hexec)
    · obtain ⟨j, hj⟩ := List.mem_iff_getElem?.1 hq
      by_cases hij : i = j
      · subst hij
        obtain rfl : p = q := Option.some.inj (hp.symm.trans hj)
        have hnone : licensing ⟨a, r⟩ = none := by
          cases hl : licensing ⟨a, r⟩ with
          | none => rfl
          | some id' =>
              have hidle := (hcond id' hl).1
              rw [hmade] at hidle
              cases hidle
        rcases made_kept hmade hallowed hnone with hstill | ⟨hrecords, x, rfl⟩
        · refine .inr ⟨p.perform next ⟨a, r⟩, ?_, by rwa [creation_perform]⟩
          exact List.mem_set (List.getElem?_eq_some_iff.1 hp).1 _
        · obtain ⟨row, hrow, rfl⟩ := hw.known p hmem (.inr hmade)
          obtain ⟨-, rfl⟩ := hexec
          exact .inl (Action.keyed_of_records hrow hrecords)
      · refine .inr ⟨q, ?_, hmade⟩
        refine List.mem_of_getElem? (i := j) ?_
        show (w.procs.set i _)[j]? = some q
        rw [List.getElem?_set_ne hij]
        exact hj

/-- The key is created. -/
theorem OneKey.act_created (hw : OneKey id w) (hp : w.procs[i]? = some p)
    (hprog : p.prog.isSome = true) {x : CreatedKey}
    (hallowed : creation p = .licensed id)
    (hexec : Exec w.state (.request (.createCredential id)) (.ok x) db') :
    OneKey id (w.perform db' i (p.perform next ⟨.request (.createCredential id), .ok x⟩)
      ⟨.request (.createCredential id), .ok x⟩) := by
  have hmem : p ∈ w.procs := List.mem_of_getElem? hp
  have hcreating : Creating p id := ⟨hprog, hallowed⟩
  have hmade : creation (p.perform next ⟨.request (.createCredential id), .ok x⟩) = .made id := by
    rw [creation_perform]
    rfl
  -- It was the only one to create the key.
  have hnone : ∀ (j : Nat) (q : Proc Answer CoreError Rotation),
      (w.perform db' i (p.perform next ⟨.request (.createCredential id), .ok x⟩)
        ⟨.request (.createCredential id), .ok x⟩).procs[j]? = some q → ¬Creating q id := by
    intro j q hj hq
    rcases procs_perform hj with ⟨rfl, rfl⟩ | ⟨hne, hj⟩
    · rw [hq.2] at hmade
      cases hmade
    · exact hne (hw.single _ _ _ _ hp hj hcreating hq)
  refine ⟨hw.wellFormed.exec hexec, ?_, ?_, ?_, ?_, hw.known_act hmem hallowed hexec⟩
  · have hzero := hw.first p hmem hcreating
    simp [World.perform, List.countP_append, hzero, created]
  · intro q hq hq'
    obtain ⟨j, hj⟩ := List.mem_iff_getElem?.1 hq
    exact absurd hq' (hnone j q hj)
  · intro j j' q q' hj hj' hq hq'
    exact absurd hq (hnone j q hj)
  · intro _
    exact .inr ⟨_, List.mem_set (List.getElem?_eq_some_iff.1 hp).1 _, hmade⟩

/-- An advance sets out to create the key. -/
theorem OneKey.act_loaded (hw : OneKey id w) (hp : w.procs[i]? = some p)
    {id' : Str} {row : Rotation} (hrow : row.licenses = true) (hid : row.id = id)
    (hexec : Exec w.state (.load .advance id') (.ok (some row)) db')
    (hcond : Alone w p ⟨.load .advance id', .ok (some row)⟩) :
    OneKey id (w.perform db' i (p.perform next ⟨.load .advance id', .ok (some row)⟩)
      ⟨.load .advance id', .ok (some row)⟩) := by
  have hmem : p ∈ w.procs := List.mem_of_getElem? hp
  have hload : licensing ⟨.load .advance id', .ok (some row)⟩ = some id := by
    show (if row.licenses then some row.id else none) = some id
    rw [if_pos hrow, hid]
  obtain ⟨-, halone⟩ := hcond id hload
  -- The row knows of no key, and no process does.
  have hzero : w.trace.countP (created id) = 0 := by
    by_contra hpos
    rcases hw.kept (Nat.pos_of_ne_zero hpos) with ⟨s, hs, hsid, hkeyed⟩ | ⟨q, hq, hmade⟩
    · have hfound : row ∈ w.state.rotations := List.mem_of_find?_eq_some hexec.1.symm
      obtain rfl : s = row := List.inj_on_of_nodup_map hw.wellFormed hs hfound (hsid.trans hid.symm)
      simp only [Rotation.licenses, Bool.and_eq_true, Option.isNone_iff_eq_none] at hrow
      simp [Rotation.keyed, hrow.1.2, hrow.2] at hkeyed
    · exact (halone q hq).2 hmade
  have hcount : (w.perform db' i (p.perform next ⟨.load .advance id', .ok (some row)⟩)
      ⟨.load .advance id', .ok (some row)⟩).trace.countP (created id) = 0 := by
    simp [World.perform, List.countP_append, hzero, created]
  have honly : ∀ (j : Nat) (q : Proc Answer CoreError Rotation),
      (w.perform db' i (p.perform next ⟨.load .advance id', .ok (some row)⟩)
        ⟨.load .advance id', .ok (some row)⟩).procs[j]? = some q → Creating q id → i = j := by
    intro j q hj hq
    rcases procs_perform hj with ⟨rfl, -⟩ | ⟨-, hj⟩
    · rfl
    · exact absurd hq (halone q (List.mem_of_getElem? hj)).1
  refine ⟨hw.wellFormed.exec hexec, ?_, ?_, ?_, ?_, hw.known_act hmem trivial hexec⟩
  · rw [hcount]
    exact Nat.zero_le 1
  · exact fun _ _ _ => hcount
  · intro j j' q q' hj hj' hq hq'
    exact (honly j q hj hq).symm.trans (honly j' q' hj' hq')
  · intro hpos
    rw [hcount] at hpos
    cases hpos

theorem OneKey.act (hw : OneKey id w) (hp : w.procs[i]? = some p) (hprog : p.prog.isSome = true)
    (hallowed : (p.knows discipline Knows.start).allowed a) (hexec : Exec w.state a r db')
    (hcond : Alone w p ⟨a, r⟩) : OneKey id (w.perform db' i (p.perform next ⟨a, r⟩) ⟨a, r⟩) := by
  cases hcreated : created id ⟨a, r⟩ with
  | true =>
      unfold created at hcreated
      split at hcreated
      · rename_i id' x heq
        injection heq with ha hr
        subst ha
        obtain rfl := eq_of_heq hr
        obtain rfl := of_decide_eq_true hcreated
        exact hw.act_created hp hprog hallowed hexec
      · cases hcreated
  | false =>
      by_cases hload : licensing ⟨a, r⟩ = some id
      · have hl := hload
        unfold licensing at hl
        split at hl
        · rename_i id' row heq
          split_ifs at hl with hrow
          injection heq with ha hr
          subst ha
          obtain rfl := eq_of_heq hr
          exact hw.act_loaded hp hrow (Option.some.inj hl) hexec hcond
        · cases hl
      · exact hw.act_other hp hprog hallowed hexec hcond hcreated hload

end Act

/-- In every run in which the advances set out alone, also with crashes, the provider creates at most one
    key for a rotation. -/
theorem one_key_alone (env : Env) {w : World Db Answer CoreError Rotation}
    (hrun : Steps (Step (system env) Alone) (World.initial Db.empty) w) (id : Str) :
    w.trace.countP (created id) ≤ 1 := by
  have hone : OneKey id w := by
    refine System.invariant discipline Knows.start (obeys_program env) ?_ ?_ ?_ ?_ hrun
    · intro w op h
      have hnew : ∀ p ∈ w.procs ++ [⟨some ((system env).program op), []⟩],
          p ∈ w.procs ∨ creation p = .idle := by
        intro p hp
        rcases List.mem_append.1 hp with hp | hp
        · exact .inl hp
        · rw [List.mem_singleton.1 hp]
          exact .inr rfl
      have hold : ∀ (j : Nat) (p : Proc Answer CoreError Rotation),
          (w.procs ++ [⟨some ((system env).program op), []⟩])[j]? = some p → Creating p id →
            w.procs[j]? = some p := by
        intro j p hj hp
        rw [List.getElem?_append] at hj
        split_ifs at hj with hlt
        · exact hj
        · rw [List.mem_singleton.1 (List.mem_of_getElem? hj)] at hp
          cases hp.2
      refine ⟨h.wellFormed, h.once, ?_, ?_, ?_, ?_⟩
      · intro p hp hcreating
        rcases hnew p hp with hp | hidle
        · exact h.first p hp hcreating
        · rw [hcreating.2] at hidle
          cases hidle
      · exact fun i j p q hi hj hp hq => h.single i j p q (hold i p hi hp) (hold j q hj hq) hp hq
      · intro hpos
        rcases h.kept hpos with hkey | ⟨p, hp, hmade⟩
        · exact .inl hkey
        · exact .inr ⟨p, List.mem_append_left _ hp, hmade⟩
      · intro p hp hcreation
        rcases hnew p hp with hp | hidle
        · exact h.known p hp hcreation
        · rw [hidle] at hcreation
          rcases hcreation with h | h
          · cases h
          · cases h
    · intro w i p a next r state h hp hprog hallowed hexec hcond
      exact h.act hp (by rw [hprog]; rfl) hallowed hexec hcond
    · intro w i p h hp
      -- A crashed process creates nothing, and still knows what it created.
      have hsame : ∀ q ∈ w.procs.set i ⟨none, p.history⟩,
          ∃ q' ∈ w.procs, creation q' = creation q ∧ (Creating q id → Creating q' id) := by
        intro q hq
        rcases List.mem_or_eq_of_mem_set hq with hq | rfl
        · exact ⟨q, hq, rfl, fun h => h⟩
        · exact ⟨p, List.mem_of_getElem? hp, rfl, fun h => by cases h.1⟩
      have hold : ∀ (j : Nat) (q : Proc Answer CoreError Rotation),
          (w.procs.set i ⟨none, p.history⟩)[j]? = some q → Creating q id → w.procs[j]? = some q := by
        intro j q hj hq
        rw [List.getElem?_set] at hj
        split_ifs at hj
        · obtain rfl := Option.some.inj hj
          cases hq.1
        · exact hj
      refine ⟨h.wellFormed, h.once, ?_, ?_, ?_, ?_⟩
      · intro q hq hcreating
        obtain ⟨q', hq', -, himp⟩ := hsame q hq
        exact h.first q' hq' (himp hcreating)
      · exact fun j j' q q' hj hj' hq hq' => h.single j j' q q' (hold j q hj hq) (hold j' q' hj' hq')
          hq hq'
      · intro hpos
        rcases h.kept hpos with hkey | ⟨q, hq, hmade⟩
        · exact .inl hkey
        · obtain ⟨j, hj⟩ := List.mem_iff_getElem?.1 hq
          by_cases hij : i = j
          · subst hij
            obtain rfl : p = q := Option.some.inj (hp.symm.trans hj)
            exact .inr ⟨⟨none, p.history⟩, List.mem_set (List.getElem?_eq_some_iff.1 hp).1 _, hmade⟩
          · refine .inr ⟨q, List.mem_of_getElem? (i := j) ?_, hmade⟩
            rw [List.getElem?_set_ne hij]
            exact hj
      · intro q hq hcreation
        obtain ⟨q', hq', heq, -⟩ := hsame q hq
        exact h.known q' hq' (heq ▸ hcreation)
    · refine ⟨List.nodup_nil, Nat.zero_le 1, fun _ h => (by cases h), ?_, fun h => (by cases h),
        fun _ h => (by cases h)⟩
      intro i j p q hp
      cases hp
  exact hone.once

/-! ## A second advance -/

/-- An advance claims the creation and loads the claimed row; a second one loads it too, and both
    create a key. -/
def twoAdvances : List (Turn Op) :=
  [.start (planOf "r1"), .act 0 8, .start (.approve "r1".toList), .act 1 10,
    .start (.advance "r1".toList none false), .act 2 8,
    .start (.advance "r1".toList none false), .act 3 6, .act 2 4]

theorem two_advances_create_two_keys :
    ∃ w, Steps (Step (system revokeOnly) fun _ _ _ => True) (World.initial Db.empty) w ∧
      w.trace.countP (created "r1".toList) = 2 := by
  obtain ⟨w, hrun, hcount⟩ := Option.map_eq_some_iff.1 (by decide :
    ((World.initial Db.empty).schedule (system revokeOnly) (fun _ _ _ => True)
      (Action.reply plainAnswers) twoAdvances).map (fun w => w.trace.countP (created "r1".toList))
      = some 2)
  exact ⟨w, World.steps_schedule (fun _ _ _ h => exec_reply _ _ _ _ h) hrun, hcount⟩

/-- The second advance comes when the key is recorded. -/
theorem one_key_alone_one :
    ∃ w, Steps (Step (system revokeOnly) Alone) (World.initial Db.empty) w ∧
      0 < w.trace.countP (created "r1".toList) ∧ w.trace.countP (created "r1".toList) ≤ 1 := by
  obtain ⟨w, hrun, hcount⟩ := Option.map_eq_some_iff.1 (by decide :
    ((World.initial Db.empty).schedule (system revokeOnly) Alone (Action.reply plainAnswers)
      [.start (planOf "r1"), .act 0 8, .start (.approve "r1".toList), .act 1 10,
        .start (.advance "r1".toList none false), .act 2 13,
        .start (.advance "r1".toList none false), .act 3 6]).map
      (fun w => w.trace.countP (created "r1".toList)) = some 1)
  have hsteps : Steps (Step (system revokeOnly) Alone) (World.initial Db.empty) w :=
    World.steps_schedule (fun _ _ _ h => exec_reply _ _ _ _ h) hrun
  exact ⟨w, hsteps, by rw [hcount]; decide, one_key_alone revokeOnly hsteps "r1".toList⟩

end Tethra.Rotations
