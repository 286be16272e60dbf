import Tethra.Rotation.Completed

set_option autoImplicit false

/-! # What a cancelled rotation stands for

A cancel looks at the version that is recorded in the row and swaps the state. An advance replaces the
value first, and records the version and swaps the state in later statements. When a cancel meets no
advance on this way, a cancelled rotation has stored nothing and never changed the value. -/

namespace Tethra.Rotations

open Interleave Runs

/-- The process is in an iteration of an advance that stores a replacement for the rotation. -/
def StoresFor (p : Proc Answer CoreError Rotation) (id : Str) : Prop :=
  (∃ a next, p.prog = some (.act a next)) ∧ (p.knows course Course.start).advancing = true ∧
    ∃ row, (p.knows course Course.start).row = some row ∧ row.id = id ∧ row.state.stores = true

/-- No store of the rotation is on its way. -/
structure Settled (w : World Db Answer CoreError Rotation) (id : Str) : Prop where
  /-- Every replacement that was asked for is recorded: none was left by a crash or a failure. -/
  recorded : ∀ q ∈ w.procs, id ∈ (q.knows course Course.start).changed →
    ∃ row ∈ w.state.rotations, row.id = id ∧ row.newVersion.isSome = true
  /-- None was recorded since the cancel has loaded the row. -/
  current : ∀ row ∈ w.state.rotations, row.id = id → row.newVersion = none
  idle : ∀ q ∈ w.procs, ¬StoresFor q id

/-- A cancel swaps while no store of its rotation is on its way. -/
def CancelsSettled (w : World Db Answer CoreError Rotation) (_ : Proc Answer CoreError Rotation)
    (e : Event Answer CoreError) : Prop :=
  match e.1 with
  | .swapState id _ .failed => Settled w id
  | _ => True

/-- No process has stored for the rotation, and none is about to. -/
structure Untouched (w : World Db Answer CoreError Rotation) (id : Str) : Prop where
  unstored : ∀ row ∈ w.state.rotations, row.id = id → row.newVersion = none
  unchanged : ∀ q ∈ w.procs, id ∉ (q.knows course Course.start).changed
  idle : ∀ q ∈ w.procs, ¬StoresFor q id

theorem Settled.untouched {w : World Db Answer CoreError Rotation} {id : Str} (h : Settled w id) :
    Untouched w id := by
  refine ⟨h.current, fun q hq hchanged => ?_, h.idle⟩
  obtain ⟨row, hrow, hid, hstored⟩ := h.recorded q hq hchanged
  rw [h.current row hrow hid] at hstored
  cases hstored

/-- What an action of a process that does not store for the rotation adds to the replacements. -/
theorem changed_next {w : World Db Answer CoreError Rotation} (hw : OnCourse w)
    {p : Proc Answer CoreError Rotation} (hp : p ∈ w.procs) {a : Action} {next : _}
    (hprog : p.prog = some (.act a next)) (hallowed : (p.knows course Course.start).allowed a)
    (x : Except CoreError (Answer a)) {id : Str} (h : Untouched w id) :
    id ∉ ((p.knows course Course.start).next a x).changed := by
  intro hid
  unfold Course.next at hid
  split at hid
  case h_7 credentialId =>
    rcases List.mem_append.1 hid with hid | hid
    · exact h.unchanged p hp hid
    · obtain ⟨row, hrow, rfl⟩ := List.mem_map.1 hid
      have hrow := Option.mem_toList.1 hrow
      obtain ⟨row', hrow', -, hside⟩ := hallowed
      obtain rfl := Option.some.inj (hrow'.symm.trans hrow)
      split at hside
      · rename_i hadvancing
        exact h.idle p hp ⟨⟨_, _, hprog⟩, hadvancing, row', hrow, rfl, hside.1⟩
      · -- A rollback was entered with its versions recorded.
        obtain ⟨hold, -⟩ := hw.entered p hp hside row' hrow
        obtain ⟨-, hsound, s, hs, hpre⟩ := hw.known p hp row' hrow
        have hstored := hpre.stored (hsound.old hold)
        rw [h.unstored s hs hpre.id] at hstored
        cases hstored
  all_goals exact h.unchanged p hp hid

/-- Behind an action a process stores for a failed rotation only if it did before. -/
theorem storesFor_perform {w : World Db Answer CoreError Rotation} (hw : OnCourse w)
    {p : Proc Answer CoreError Rotation} {a : Action}
    {next : Except CoreError (Answer a) → Prog Rotation}
    (hprog : p.prog = some (.act a next)) {x : Except CoreError (Answer a)} {db' : Db}
    (hexec : Exec w.state a x db') {s : Rotation} (hs : s ∈ w.state.rotations)
    (hfailed : s.state = .failed)
    (h : StoresFor (p.perform (next x) ⟨a, x⟩) s.id) : StoresFor p s.id := by
  obtain ⟨-, hadvancing, row, hrow, hid, hstores⟩ := h
  rw [Proc.knows_perform] at hadvancing hrow
  have hnext : ((p.knows course Course.start).next a x).advancing = true ∧
      ((p.knows course Course.start).next a x).row = some row := ⟨hadvancing, hrow⟩
  unfold Course.next at hnext
  split at hnext
  case h_1 id loaded =>
    -- The row that is loaded is the failed one.
    obtain rfl := Option.some.inj hnext.2
    obtain ⟨hx, -⟩ := hexec
    have hfound : w.state.find id = some loaded := hx.symm
    have hmem := List.mem_of_find?_eq_some hfound
    obtain rfl := List.inj_on_of_nodup_map hw.wellFormed hmem hs hid
    rw [hfailed] at hstores
    cases hstores
  case h_2 => cases hnext.1
  all_goals exact ⟨⟨_, _, hprog⟩, hnext.1, row, hnext.2, hid, hstores⟩

/-- One action of a process keeps the failed rotations untouched. -/
theorem untouched_act {w : World Db Answer CoreError Rotation} (hw : OnCourse w)
    (h : ∀ s ∈ w.state.rotations, s.state = .failed → Untouched w s.id) {i : Nat}
    {p : Proc Answer CoreError Rotation} (hp : w.procs[i]? = some p) {a : Action}
    {next : Except CoreError (Answer a) → Prog Rotation} (hprog : p.prog = some (.act a next))
    (hallowed : (p.knows course Course.start).allowed a) {x : Except CoreError (Answer a)} {db' : Db}
    (hexec : Exec w.state a x db') (hcond : CancelsSettled w p ⟨a, x⟩) {row : Rotation}
    (hrow : row ∈ db'.rotations) (hfailed : row.state = .failed) :
    Untouched (w.perform db' i (p.perform (next x) ⟨a, x⟩) ⟨a, x⟩) row.id := by
  have hmem : p ∈ w.procs := List.mem_of_getElem? hp
  have hids := hw.wellFormed.exec hexec
  -- The row was failed before, or this action cancels it.
  obtain ⟨s, hs, hid, hbefore, hstores⟩ : ∃ s ∈ w.state.rotations, s.id = row.id ∧
      Untouched w s.id ∧ ¬StoresFor (p.perform (next x) ⟨a, x⟩) s.id := by
    have hkept : row ∈ w.state.rotations → ∃ s ∈ w.state.rotations, s.id = row.id ∧
        Untouched w s.id ∧ ¬StoresFor (p.perform (next x) ⟨a, x⟩) s.id := by
      intro hrow
      have hun := h row hrow hfailed
      exact ⟨row, hrow, rfl, hun, fun hnew =>
        hun.idle p hmem (storesFor_perform hw hprog hexec hrow hfailed hnew)⟩
    cases x with
    | error e =>
        obtain rfl : db' = w.state := hexec
        exact hkept hrow
    | ok x =>
        have hexec' := hexec
        obtain ⟨-, rfl⟩ := hexec'
        rcases Action.mem_rotations hrow with rfl | ⟨s, hs, hsame, hswap, -⟩
        · rw [hallowed.1] at hfailed
          cases hfailed
        · have hid : s.id = row.id := (congrArg Prod.fst hsame).symm
          rcases hswap with hstate | rfl
          · have hsfailed := hstate.symm.trans hfailed
            have hun := h s hs hsfailed
            exact ⟨s, hs, hid, hun, fun hnew =>
              hun.idle p hmem (storesFor_perform hw hprog hexec hs hsfailed hnew)⟩
          · rw [hfailed] at hcond hallowed
            obtain ⟨-, -, hoperation, -⟩ := hallowed.failed rfl
            refine ⟨s, hs, hid, Settled.untouched hcond, ?_⟩
            rintro ⟨-, hadvancing, -⟩
            rw [Proc.knows_perform] at hadvancing
            have hsame : (p.knows course Course.start).advancing = true := by
              rw [← hadvancing, hfailed]
              rfl
            rw [hoperation] at hsame
            cases hsame
  rw [← hid]
  refine ⟨fun r hr hrid => ?_, forall_procs_set hbefore.unchanged ?_,
    forall_procs_set hbefore.idle hstores⟩
  · cases x with
    | error e =>
        obtain rfl : db' = w.state := hexec
        exact hbefore.unstored r hr hrid
    | ok x =>
        obtain ⟨hanswer, rfl⟩ := hexec
        rcases Action.mem_rotations hr with rfl | ⟨t, ht, hsame, -, hversions, -⟩
        · exact absurd hrid.symm (hanswer s hs)
        · have htid : t.id = s.id := (congrArg Prod.fst hsame).symm.trans hrid
          rcases hversions with ⟨-, hnew⟩ | ⟨new, rfl, -⟩
          · rw [hnew, hbefore.unstored t ht htid]
          · -- Versions are recorded by a process that has replaced the value.
            obtain ⟨-, -, -, -, -, -, -, hchanged⟩ := hallowed
            exact absurd (htid ▸ hchanged) (hbefore.unchanged p hmem)
  · rw [Proc.knows_perform]
    exact changed_next hw hmem hprog hallowed x hbefore

/-- In every run whose cancels meet no store of their rotation on its way, a failed rotation has no
    replacement stored, and no process has asked for the value to be replaced for it. -/
theorem cancelled_is_untouched (env : Env) {w : World Db Answer CoreError Rotation}
    (hrun : Steps (Step (system env) CancelsSettled) (World.initial Db.empty) w) {row : Rotation}
    (hrow : row ∈ w.state.rotations) (hfailed : row.state = .failed) :
    row.newVersion = none ∧ ∀ p ∈ w.procs, row.id ∉ (p.knows course Course.start).changed := by
  have hinv : OnCourse w ∧ ∀ s ∈ w.state.rotations, s.state = .failed → Untouched w s.id := by
    refine System.invariant course Course.start (I := fun w => OnCourse w ∧
      ∀ s ∈ w.state.rotations, s.state = .failed → Untouched w s.id) (obeysCourse_program env)
      ?_ ?_ ?_ ?_ hrun
    · rintro w op ⟨hw, h⟩
      refine ⟨hw.start (op.program env), fun s hs hfailed => ?_⟩
      have hun := h s hs hfailed
      refine ⟨hun.unstored, forall_procs_start hun.unchanged List.not_mem_nil,
        forall_procs_start hun.idle ?_⟩
      rintro ⟨-, hadvancing, -⟩
      cases hadvancing
    · rintro w i p a next x db' ⟨hw, h⟩ hp hprog hallowed hexec hcond
      exact ⟨hw.act hp hallowed hexec, fun s hs hfailed =>
        untouched_act hw h hp hprog hallowed hexec hcond hs hfailed⟩
    · rintro w i p ⟨hw, h⟩ hp
      refine ⟨hw.crash hp, fun s hs hfailed => ?_⟩
      have hun := h s hs hfailed
      refine ⟨hun.unstored,
        forall_procs_set hun.unchanged (hun.unchanged p (List.mem_of_getElem? hp)),
        forall_procs_set hun.idle ?_⟩
      rintro ⟨⟨_, _, h⟩, -⟩
      cases h
    · exact ⟨.initial, fun _ h => (by cases h)⟩
  have hun := hinv.2 row hrow hfailed
  exact ⟨hun.unstored row hrow rfl, hun.unchanged⟩

/-! ## A cancel between a replacement and its recording -/

/-- The process has replaced the value of a credential. -/
def replacedIn (p : Proc Answer CoreError Rotation) : Bool :=
  p.history.any fun
    | ⟨.request (.replaceCredentialValue _), .ok _⟩ => true
    | _ => false

theorem exists_of_replacedIn {p : Proc Answer CoreError Rotation} (h : replacedIn p = true) :
    ∃ credentialId, ⟨.request (.replaceCredentialValue credentialId), .ok ()⟩ ∈ p.history := by
  obtain ⟨⟨a, x⟩, he, hreplaced⟩ := List.any_eq_true.1 h
  split at hreplaced
  · rename_i credentialId u heq
    exact ⟨credentialId, heq ▸ he⟩
  · cases hreplaced

/-- An advance has created the key and replaced the value, and the rotation is cancelled. -/
def cancelAcrossStore : List (Turn Op) :=
  [.start (planOf "r1"), .act 0 8, .start (.approve "r1".toList), .act 1 10,
    .start (.advance "r1".toList none false), .act 2 17, .start (.cancel "r1".toList), .act 3 5]

theorem cancelled_after_replacement :
    ∃ w, Steps (Step (system revokeOnly) fun _ _ _ => True) (World.initial Db.empty) w ∧
      ∃ row ∈ w.state.rotations, row.state = .failed ∧
        ∃ p ∈ w.procs, row.id ∈ (p.knows course Course.start).changed ∧
          ∃ credentialId, ⟨.request (.replaceCredentialValue credentialId), .ok ()⟩ ∈ p.history := by
  obtain ⟨w, hrun, hleft⟩ := Option.map_eq_some_iff.1 (by decide :
    ((World.initial Db.empty).schedule (system revokeOnly) (fun _ _ _ => True)
      (Action.reply plainAnswers) cancelAcrossStore).map (fun w => onlyIn .failed w &&
        w.procs.any fun p => (p.knows course Course.start).changed.contains "r1".toList && replacedIn p)
      = some true)
  obtain ⟨hfailed, hchanged⟩ := Bool.and_eq_true_iff.1 hleft
  obtain ⟨row, hrow, hid, hstate⟩ := row_of_onlyIn hfailed
  obtain ⟨p, hp, hp'⟩ := List.any_eq_true.1 hchanged
  obtain ⟨hmem, hreplaced⟩ := Bool.and_eq_true_iff.1 hp'
  exact ⟨w, World.steps_schedule (fun _ _ _ h => exec_reply _ _ _ _ h) hrun, row, hrow, hstate, p, hp,
    hid ▸ List.contains_iff_mem.1 hmem, exists_of_replacedIn hreplaced⟩

/-- Nothing is stored or asked for, and no advance has begun. -/
def nothingStored (w : World Db Answer CoreError Rotation) : Bool :=
  w.state.rotations.all (fun r => r.newVersion.isNone) && w.procs.all fun p =>
    (p.knows course Course.start).changed.isEmpty && !(p.knows course Course.start).advancing

theorem cancelsSettled_of_nothingStored (w : World Db Answer CoreError Rotation)
    (p : Proc Answer CoreError Rotation) (e : Event Answer CoreError) (h : nothingStored w = true) :
    CancelsSettled w p e := by
  obtain ⟨hrows, hprocs⟩ := Bool.and_eq_true_iff.1 h
  have hproc : ∀ q ∈ w.procs, (q.knows course Course.start).changed = [] ∧
      (q.knows course Course.start).advancing = false := by
    intro q hq
    simpa using List.all_eq_true.1 hprocs q hq
  unfold CancelsSettled
  split
  · refine ⟨fun q hq hid => ?_, fun row hrow _ => ?_, fun q hq hstores => ?_⟩
    · rw [(hproc q hq).1] at hid
      cases hid
    · simpa using List.all_eq_true.1 hrows row hrow
    · have hadvancing := hstores.2.1
      rw [(hproc q hq).2] at hadvancing
      cases hadvancing
  · trivial

/-- An approved rotation is cancelled. -/
theorem cancelled_is_untouched_one :
    ∃ w, Steps (Step (system revokeOnly) CancelsSettled) (World.initial Db.empty) w ∧
      ∃ row ∈ w.state.rotations, row.state = .failed ∧ row.newVersion = none ∧
        ∀ p ∈ w.procs, row.id ∉ (p.knows course Course.start).changed := by
  obtain ⟨w, hrun, hleft⟩ := Option.map_eq_some_iff.1 (by decide :
    ((World.initial Db.empty).schedule (system revokeOnly) (fun w _ _ => nothingStored w = true)
      (Action.reply plainAnswers) [.start (planOf "r1"), .act 0 8, .start (.approve "r1".toList),
        .act 1 10, .start (.cancel "r1".toList), .act 2 5]).map (onlyIn .failed) = some true)
  have hsteps : Steps (Step (system revokeOnly) CancelsSettled) (World.initial Db.empty) w :=
    Relation.ReflTransGen.mono
      (fun _ _ hstep => hstep.mono cancelsSettled_of_nothingStored) _ _
      (World.steps_schedule (fun _ _ _ h => exec_reply _ _ _ _ h) hrun)
  obtain ⟨row, hrow, -, hstate⟩ := row_of_onlyIn hleft
  have huntouched := cancelled_is_untouched revokeOnly hsteps hrow hstate
  exact ⟨w, hsteps, row, hrow, hstate, huntouched.1, huntouched.2⟩

end Tethra.Rotations
