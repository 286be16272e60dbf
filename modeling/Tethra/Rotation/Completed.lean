import Tethra.Rotation.OneActive
import Tethra.Rotation.Course

set_option autoImplicit false

/-! # What a completed rotation stands for

A completion rests on the validation of the loaded row, and a validation on a recorded replacement. A
rotation whose rollback has written anything back has left its way forward; it comes to a completion
through `manual_required` alone. -/

namespace Tethra.Rotations

open Interleave Runs

/-! ## The rows -/

/-- What an action makes of a row: it is new, or comes from a row that was there, and what differs is
    what the action sets. -/
theorem Action.mem_rotations {db : Db} {a : Action} {r : Rotation}
    (h : r ∈ (a.effect db).rotations) : a = .insertRow r ∨ ∃ s ∈ db.rotations,
      r.identity = s.identity ∧ (r.state = s.state ∨ a = .swapState s.id s.state r.state) ∧
      (r.oldVersion = s.oldVersion ∧ r.newVersion = s.newVersion ∨
        ∃ new, a = .setVersions s.id r.oldVersion new ∧ r.newVersion = some new) ∧
      (r.newValueValidated = s.newValueValidated ∨
        a = .markValidated s.id ∧ r.newValueValidated = true) := by
  have hsame : ∀ s ∈ db.rotations, r = s → ∃ s ∈ db.rotations,
      r.identity = s.identity ∧ (r.state = s.state ∨ a = .swapState s.id s.state r.state) ∧
      (r.oldVersion = s.oldVersion ∧ r.newVersion = s.newVersion ∨
        ∃ new, a = .setVersions s.id r.oldVersion new ∧ r.newVersion = some new) ∧
      (r.newValueValidated = s.newValueValidated ∨
        a = .markValidated s.id ∧ r.newValueValidated = true) := by
    rintro s hs rfl
    exact ⟨r, hs, rfl, .inl rfl, .inl ⟨rfl, rfl⟩, .inl rfl⟩
  cases a with
  | swapState id fromState toState =>
      refine .inr ?_
      obtain ⟨s, hs, ⟨rfl, rfl⟩ | ⟨-, rfl⟩⟩ := Db.mem_update h
      · by_cases hfrom : s.state = fromState
        · rw [if_pos hfrom]
          exact ⟨s, hs, rfl, .inr (by rw [hfrom]), .inl ⟨rfl, rfl⟩, .inl rfl⟩
        · rw [if_neg hfrom]
          exact ⟨s, hs, rfl, .inl rfl, .inl ⟨rfl, rfl⟩, .inl rfl⟩
      · exact hsame r hs rfl
  | insertRow row =>
      rcases List.mem_append.1 h with h | h
      · exact .inr (hsame r h rfl)
      · rw [List.mem_singleton.1 h]
        exact .inl rfl
  | setError id error =>
      obtain ⟨s, hs, ⟨-, rfl⟩ | ⟨-, rfl⟩⟩ := Db.mem_update h
      · exact .inr ⟨s, hs, rfl, .inl rfl, .inl ⟨rfl, rfl⟩, .inl rfl⟩
      · exact .inr (hsame r hs rfl)
  | setField id field =>
      obtain ⟨s, hs, ⟨-, rfl⟩ | ⟨-, rfl⟩⟩ := Db.mem_update h
      · cases field <;> exact .inr ⟨s, hs, rfl, .inl rfl, .inl ⟨rfl, rfl⟩, .inl rfl⟩
      · exact .inr (hsame r hs rfl)
  | setVersions id old new =>
      obtain ⟨s, hs, ⟨rfl, rfl⟩ | ⟨-, rfl⟩⟩ := Db.mem_update h
      · exact .inr ⟨s, hs, rfl, .inl rfl, .inr ⟨new, rfl, rfl⟩, .inl rfl⟩
      · exact .inr (hsame r hs rfl)
  | markValidated id =>
      obtain ⟨s, hs, ⟨rfl, rfl⟩ | ⟨-, rfl⟩⟩ := Db.mem_update h
      · exact .inr ⟨s, hs, rfl, .inl rfl, .inl ⟨rfl, rfl⟩, .inr ⟨rfl, rfl⟩⟩
      · exact .inr (hsame r hs rfl)
  | load reader id => exact .inr (hsame r h rfl)
  | countActive credentialId id => exact .inr (hsame r h rfl)
  | recordEvent id fromState toState detail => exact .inr (hsame r h rfl)
  | recordNote id state note => exact .inr (hsame r h rfl)
  | events id => exact .inr (hsame r h rfl)
  | request q => exact .inr (hsame r h rfl)

/-- The later row keeps what is recorded once. -/
structure Rotation.Precedes (s r : Rotation) : Prop where
  identity : r.identity = s.identity
  stored : s.newVersion.isSome = true → r.newVersion.isSome = true
  validated : s.newValueValidated = true → r.newValueValidated = true

theorem Rotation.Precedes.refl (s : Rotation) : s.Precedes s :=
  ⟨rfl, fun h => h, fun h => h⟩

theorem Rotation.Precedes.trans {s r t : Rotation} (h : s.Precedes r) (h' : r.Precedes t) :
    s.Precedes t :=
  ⟨h'.identity.trans h.identity, fun hs => h'.stored (h.stored hs),
    fun hs => h'.validated (h.validated hs)⟩

theorem Rotation.Precedes.id {s r : Rotation} (h : s.Precedes r) : r.id = s.id :=
  congrArg Prod.fst h.identity

/-- No statement takes a row, or what is recorded in it, away. -/
theorem Exec.precedes {db db' : Db} {a : Action} {x : Except CoreError (Answer a)}
    (h : Exec db a x db') {s : Rotation} (hs : s ∈ db.rotations) :
    ∃ r ∈ db'.rotations, s.Precedes r := by
  have hupdate : ∀ (id : Str) (f : Rotation → Rotation), (∀ r : Rotation, r.Precedes (f r)) →
      ∃ r ∈ (db.update id f).rotations, s.Precedes r := by
    intro id f hf
    refine ⟨_, List.mem_map_of_mem hs, ?_⟩
    split
    · exact hf s
    · exact .refl s
  cases x with
  | error e =>
      obtain rfl : db' = db := h
      exact ⟨s, hs, .refl s⟩
  | ok x =>
      obtain ⟨-, rfl⟩ := h
      cases a with
      | swapState id fromState toState =>
          refine hupdate id _ fun r => ?_
          split
          · exact ⟨rfl, fun h => h, fun h => h⟩
          · exact .refl r
      | insertRow row => exact ⟨s, List.mem_append_left _ hs, .refl s⟩
      | setError id error => exact hupdate id _ fun r => ⟨rfl, fun h => h, fun h => h⟩
      | setField id field =>
          exact hupdate id _ fun r => by cases field <;> exact ⟨rfl, fun h => h, fun h => h⟩
      | setVersions id old new => exact hupdate id _ fun r => ⟨rfl, fun _ => rfl, fun h => h⟩
      | markValidated id => exact hupdate id _ fun r => ⟨rfl, fun h => h, fun _ => rfl⟩
      | load reader id => exact ⟨s, hs, .refl s⟩
      | countActive credentialId id => exact ⟨s, hs, .refl s⟩
      | recordEvent id fromState toState detail => exact ⟨s, hs, .refl s⟩
      | recordNote id state note => exact ⟨s, hs, .refl s⟩
      | events id => exact ⟨s, hs, .refl s⟩
      | request q => exact ⟨s, hs, .refl s⟩

/-- A row with an old version or a validation has its replacement recorded. -/
structure Rotation.Sound (row : Rotation) : Prop where
  old : row.oldVersion.isSome = true → row.newVersion.isSome = true
  validated : row.newValueValidated = true → row.newVersion.isSome = true

/-- The row that a process has decided on is an earlier one of the store. -/
def Course.Known (k : Course) (db : Db) : Prop :=
  ∀ row, k.row = some row → row.id = k.asked ∧ row.Sound ∧ ∃ s ∈ db.rotations, row.Precedes s

theorem Course.Known.exec {k : Course} {db db' : Db} (h : k.Known db) {a : Action}
    {x : Except CoreError (Answer a)} (hexec : Exec db a x db') : k.Known db' := by
  intro row hrow
  obtain ⟨hid, hsound, s, hs, hpre⟩ := h row hrow
  obtain ⟨r, hr, hpre'⟩ := hexec.precedes hs
  exact ⟨hid, hsound, r, hr, hpre.trans hpre'⟩

/-- What is loaded is known. -/
theorem Course.Known.next {k : Course} {db db' : Db} (h : k.Known db)
    (hsound : ∀ s ∈ db.rotations, s.Sound) {a : Action} {x : Except CoreError (Answer a)}
    (hexec : Exec db a x db') : (k.next a x).Known db' := by
  have hkept := h.exec hexec
  have hfound : ∀ {id : Str} {row : Rotation}, db.find id = some row →
      row.id = id ∧ row.Sound ∧ ∃ s ∈ db.rotations, row.Precedes s := by
    intro id row hrow
    have hmem := List.mem_of_find?_eq_some hrow
    have hid : decide (row.id = id) = true := @List.find?_some _ (fun r : Rotation => decide (r.id = id)) _ _ hrow
    exact ⟨of_decide_eq_true hid, hsound row hmem, row, hmem, .refl row⟩
  intro row hrow
  unfold Course.next at hrow ⊢
  split at hrow
  case h_1 id loaded =>
    obtain rfl := Option.some.inj hrow
    obtain ⟨hx, rfl⟩ := hexec
    exact hfound hx.symm
  case h_2 id loaded =>
    obtain ⟨hx, rfl⟩ := hexec
    exact hfound (hx.symm.trans hrow)
  all_goals exact hkept row hrow

/-! ## Every run -/

/-- The rotation is there, and past its way forward. -/
def Db.Turned (db : Db) (id : Str) : Prop :=
  (∃ s ∈ db.rotations, s.id = id) ∧ ∀ s ∈ db.rotations, s.id = id → s.state.turned = true

/-- What holds of the rows and of what the processes have decided on. -/
structure OnCourse (w : World Db Answer CoreError Rotation) : Prop where
  wellFormed : w.state.WellFormed
  sound : ∀ row ∈ w.state.rotations, row.Sound
  known : ∀ p ∈ w.procs, (p.knows course Course.start).Known w.state
  /-- A rotation whose rollback was entered has turned, and had its old version recorded. -/
  entered : ∀ p ∈ w.procs, (p.knows course Course.start).entered = true →
    ∀ row, (p.knows course Course.start).row = some row →
      row.oldVersion.isSome = true ∧ w.state.Turned row.id
  restored : ∀ p ∈ w.procs, ∀ id ∈ (p.knows course Course.start).restored, w.state.Turned id

/-- The row that a process has decided on precedes the one of the store. -/
theorem OnCourse.precedes_of_decided {w : World Db Answer CoreError Rotation} (hw : OnCourse w)
    {p : Proc Answer CoreError Rotation} (hp : p ∈ w.procs) {s row : Rotation}
    (h : (p.knows course Course.start).Decided s.id row) (hs : s ∈ w.state.rotations) :
    row.Precedes s := by
  obtain ⟨hasked, -, t, ht, hpre⟩ := hw.known p hp row h.1
  have htid : t.id = s.id := hpre.id.trans (h.2.elim (fun hid => hid) hasked.trans)
  obtain rfl := List.inj_on_of_nodup_map hw.wellFormed ht hs htid
  exact hpre

/-- The rows that an action leaves are sound. -/
theorem OnCourse.sound_effect {w : World Db Answer CoreError Rotation} (hw : OnCourse w)
    {p : Proc Answer CoreError Rotation} (hp : p ∈ w.procs) {a : Action}
    (hallowed : (p.knows course Course.start).allowed a) :
    ∀ row ∈ (a.effect w.state).rotations, row.Sound := by
  intro row hrow
  rcases Action.mem_rotations hrow with rfl | ⟨s, hs, hsame, -, hversions, hvalidated⟩
  · obtain ⟨-, hold, -, hnot⟩ := hallowed
    exact ⟨fun h => (by rw [hold] at h; cases h), fun h => (by rw [hnot] at h; cases h)⟩
  · have hstored : s.newVersion.isSome = true → row.newVersion.isSome = true := by
      intro h
      rcases hversions with ⟨-, hnew⟩ | ⟨new, -, hnew⟩
      · rw [hnew]
        exact h
      · rw [hnew]
        rfl
    constructor
    · intro h
      rcases hversions with ⟨hold, -⟩ | ⟨new, -, hnew⟩
      · exact hstored ((hw.sound s hs).old (hold ▸ h))
      · rw [hnew]
        rfl
    · intro h
      rcases hvalidated with hv | ⟨rfl, -⟩
      · exact hstored ((hw.sound s hs).validated (hv ▸ h))
      · -- The validation is marked on a row that was loaded with its replacement.
        obtain ⟨loaded, hdecided, hnew⟩ := hallowed
        exact hstored ((hw.precedes_of_decided hp hdecided hs).stored hnew)

/-- A rotation that has turned stays so. -/
theorem Db.Turned.exec {k : Course} {db db' : Db} {id : Str} (h : db.Turned id) {a : Action}
    {x : Except CoreError (Answer a)} (hallowed : k.allowed a) (hexec : Exec db a x db') :
    db'.Turned id := by
  obtain ⟨⟨s, hs, hsid⟩, hturned⟩ := h
  obtain ⟨r, hr, hpre⟩ := hexec.precedes hs
  refine ⟨⟨r, hr, hpre.id.trans hsid⟩, fun r hr hrid => ?_⟩
  cases x with
  | error e =>
      obtain rfl : db' = db := hexec
      exact hturned r hr hrid
  | ok x =>
      obtain ⟨hanswer, rfl⟩ := hexec
      rcases Action.mem_rotations hr with rfl | ⟨t, ht, hsame, hstate, -⟩
      · exact absurd (hsid.trans hrid.symm) (hanswer s hs)
      · have hturned := hturned t ht ((congrArg Prod.fst hsame).symm.trans hrid)
        rcases hstate with hstate | rfl
        · rw [hstate]
          exact hturned
        · exact hallowed.turned hturned

/-- A swap that found the row leaves it in the new state. -/
theorem state_of_swapped {db db' : Db} (hids : db.WellFormed) {id : Str}
    {fromState toState : RotationState}
    (hexec : Exec db (.swapState id fromState toState) (.ok true) db') :
    (∃ s ∈ db'.rotations, s.id = id) ∧ ∀ s ∈ db'.rotations, s.id = id → s.state = toState := by
  have hids' := hids.exec hexec
  obtain ⟨hany, rfl⟩ := hexec
  obtain ⟨s, hs, hfound⟩ := List.any_eq_true.1 (show true = _ from hany).symm
  simp only [Bool.and_eq_true, decide_eq_true_eq] at hfound
  have hmem : { s with state := toState, lastError := [] } ∈
      ((Action.swapState id fromState toState).effect db).rotations :=
    List.mem_map.2 ⟨s, hs, by simp [hfound.1, hfound.2]⟩
  refine ⟨⟨_, hmem, hfound.1⟩, fun r hr hrid => ?_⟩
  obtain rfl := List.inj_on_of_nodup_map hids' hr hmem (hrid.trans hfound.1.symm)
  rfl

/-- One action of a process keeps to the course. -/
theorem OnCourse.act {w : World Db Answer CoreError Rotation} {i : Nat}
    {p : Proc Answer CoreError Rotation} {a : Action} {next : Prog Rotation}
    {x : Except CoreError (Answer a)} {db' : Db} (hw : OnCourse w) (hp : w.procs[i]? = some p)
    (hallowed : (p.knows course Course.start).allowed a) (hexec : Exec w.state a x db') :
    OnCourse (w.perform db' i (p.perform next ⟨a, x⟩) ⟨a, x⟩) := by
  have hmem : p ∈ w.procs := List.mem_of_getElem? hp
  refine ⟨hw.wellFormed.exec hexec, ?_, ?_, ?_, ?_⟩
  · cases x with
    | error e =>
        obtain rfl : db' = w.state := hexec
        exact hw.sound
    | ok x =>
        obtain ⟨-, rfl⟩ := hexec
        exact hw.sound_effect hmem hallowed
  · intro q hq
    rcases List.mem_or_eq_of_mem_set hq with hq | rfl
    · exact (hw.known q hq).exec hexec
    · rw [Proc.knows_perform]
      exact (hw.known p hmem).next hw.sound hexec
  · intro q hq hentered row hrow
    rcases List.mem_or_eq_of_mem_set hq with hq | rfl
    · obtain ⟨hold, hturned⟩ := hw.entered q hq hentered row hrow
      exact ⟨hold, hturned.exec hallowed hexec⟩
    · rw [Proc.knows_perform] at hentered hrow
      have hnext : (Course.next (p.knows course Course.start) a x).entered = true ∧
          (Course.next (p.knows course Course.start) a x).row = some row := ⟨hentered, hrow⟩
      unfold Course.next at hnext
      split at hnext
      case h_1 => cases hnext.1
      case h_2 => cases hnext.1
      case h_4 id fromState =>
        -- The rollback is entered by this swap.
        obtain ⟨loaded, ⟨hloaded, hid⟩, -, hold⟩ := hallowed.rollingBack rfl
        obtain rfl := Option.some.inj (hloaded.symm.trans hnext.2)
        have hid : loaded.id = id := hid.elim (fun h => h) fun h =>
          (hw.known p hmem loaded hloaded).1.trans h
        obtain ⟨hthere, hstate⟩ := state_of_swapped hw.wellFormed hexec
        rw [hid]
        exact ⟨hold, hthere, fun s hs hsid => by rw [hstate s hs hsid]; rfl⟩
      all_goals
        obtain ⟨hold, hturned⟩ := hw.entered p hmem hnext.1 row hnext.2
        exact ⟨hold, hturned.exec hallowed hexec⟩
  · intro q hq id hid
    rcases List.mem_or_eq_of_mem_set hq with hq | rfl
    · exact (hw.restored q hq id hid).exec hallowed hexec
    · rw [Proc.knows_perform] at hid
      change id ∈ (Course.next _ a x).restored at hid
      have hrows : (p.knows course Course.start).entered = true →
          id ∈ (p.knows course Course.start).rowIds → w.state.Turned id := by
        intro hentered hid
        obtain ⟨row, hrow, rfl⟩ := List.mem_map.1 hid
        exact (hw.entered p hmem hentered row (Option.mem_toList.1 hrow)).2
      unfold Course.next at hid
      split at hid
      case h_7 credentialId =>
        rcases List.mem_append.1 hid with hid | hid
        · exact (hw.restored p hmem id hid).exec hallowed hexec
        · have hside := hallowed
          obtain ⟨row, -, -, hside⟩ := hside
          split at hid
          · cases hid
          · rename_i hadvancing
            rw [if_neg hadvancing] at hside
            exact (hrows hside hid).exec hallowed hexec
      case h_8 planId =>
        rcases List.mem_append.1 hid with hid | hid
        · exact (hw.restored p hmem id hid).exec hallowed hexec
        · exact (hrows hallowed.2 hid).exec hallowed hexec
      all_goals exact (hw.restored p hmem id hid).exec hallowed hexec

theorem OnCourse.start {w : World Db Answer CoreError Rotation} (h : OnCourse w)
    (p : Prog Rotation) : OnCourse { w with procs := w.procs ++ [⟨some p, []⟩] } := by
  refine ⟨h.wellFormed, h.sound, forall_procs_start h.known ?_, forall_procs_start h.entered ?_,
    forall_procs_start h.restored ?_⟩
  · intro row hrow
    cases hrow
  · intro hentered
    cases hentered
  · intro id hid
    cases hid

theorem OnCourse.crash {w : World Db Answer CoreError Rotation} (h : OnCourse w) {i : Nat}
    {p : Proc Answer CoreError Rotation} (hp : w.procs[i]? = some p) :
    OnCourse { w with procs := w.procs.set i ⟨none, p.history⟩ } := by
  have hmem : p ∈ w.procs := List.mem_of_getElem? hp
  exact ⟨h.wellFormed, h.sound, forall_procs_set h.known (h.known p hmem),
    forall_procs_set h.entered (h.entered p hmem), forall_procs_set h.restored (h.restored p hmem)⟩

theorem OnCourse.initial : OnCourse (World.initial Db.empty) :=
  ⟨List.nodup_nil, fun _ h => (by cases h), fun _ h => (by cases h), fun _ h => (by cases h),
    fun _ h => (by cases h)⟩

/-- Every run is on course, whatever its steps are. -/
theorem onCourse (env : Env)
    {cond : World Db Answer CoreError Rotation → Proc Answer CoreError Rotation →
      Event Answer CoreError → Prop} {w : World Db Answer CoreError Rotation}
    (hrun : Steps (Step (system env) cond) (World.initial Db.empty) w) : OnCourse w :=
  System.invariant course Course.start (obeysCourse_program env) (fun _ op h => h.start (op.program env))
    (fun _ _ _ _ _ _ _ h hp _ hallowed hexec _ => h.act hp hallowed hexec)
    (fun _ _ _ h hp => h.crash hp) .initial hrun

/-! ## The completion -/

/-- A rotation in `manual_required` is completed only where no rollback of it has written to the vault
    or to the destinations. -/
def CompletesForward (w : World Db Answer CoreError Rotation) (_ : Proc Answer CoreError Rotation)
    (e : Event Answer CoreError) : Prop :=
  match e.1 with
  | .swapState id .manualRequired .completed =>
      ∀ q ∈ w.procs, id ∉ (q.knows course Course.start).restored
  | _ => True

/-- The step completes the rotation. -/
def Completes (u v : World Db Answer CoreError Rotation) (id : Str) : Prop :=
  (∃ s ∈ u.state.rotations, s.id = id ∧ s.state ≠ .completed) ∧
    ∃ r ∈ v.state.rotations, r.id = id ∧ r.state = .completed

/-- A row that is completed behind a step was completed before it, or the step completes it on the way
    forward. -/
theorem completed_step (env : Env) {u v : World Db Answer CoreError Rotation} (hu : OnCourse u)
    (hconf : u.Conforms course Course.start) (hstep : Step (system env) CompletesForward u v)
    {row : Rotation} (hrow : row ∈ v.state.rotations) (hstate : row.state = .completed) :
    (∃ s ∈ u.state.rotations, s.state = .completed ∧ s.id = row.id ∧
      (s.newValueValidated = true → row.newValueValidated = true)) ∨
    (row.newValueValidated = true ∧ Completes u v row.id ∧
      ∀ p ∈ u.procs, row.id ∉ (p.knows course Course.start).restored) := by
  cases hstep with
  | start op => exact .inl ⟨row, hrow, hstate, rfl, fun h => h⟩
  | crash hp => exact .inl ⟨row, hrow, hstate, rfl, fun h => h⟩
  | @act i p a next x db' hp hprog hexec hcond =>
      cases x with
      | error e =>
          obtain rfl : db' = u.state := hexec
          exact .inl ⟨row, hrow, hstate, rfl, fun h => h⟩
      | ok x =>
          have hmem : p ∈ u.procs := List.mem_of_getElem? hp
          have hallowed := (hconf p hmem _ hprog).1
          obtain ⟨-, rfl⟩ := hexec
          rcases Action.mem_rotations hrow with rfl | ⟨s, hs, hsame, hswap, -, hvalidated⟩
          · rw [hallowed.1] at hstate
            cases hstate
          · have hid : s.id = row.id := (congrArg Prod.fst hsame).symm
            have hkept : s.newValueValidated = true → row.newValueValidated = true := by
              intro h
              rcases hvalidated with hv | ⟨-, hv⟩
              · rw [hv, h]
              · exact hv
            by_cases hbefore : s.state = .completed
            · exact .inl ⟨s, hs, hbefore, hid, hkept⟩
            · rcases hswap with hsame | rfl
              · exact absurd (hsame.symm.trans hstate) hbefore
              · refine .inr ⟨hkept ?_, ⟨⟨s, hs, hid, hbefore⟩, row, hrow, rfl, hstate⟩, ?_⟩
                · obtain ⟨-, loaded, hdecided, hv⟩ := hallowed.completed hstate
                  exact (hu.precedes_of_decided hmem hdecided hs).validated hv
                · intro q hq hrestored
                  obtain ⟨hmanual, -⟩ := hallowed.completed hstate
                  have hturned := (hu.restored q hq row.id hrestored).2 s hs hid
                  -- Of the states that a completion leaves, only one is past the way forward.
                  cases hfrom : s.state with
                  | manualRequired =>
                      rw [hfrom, hstate] at hcond
                      exact hcond q hq (hid ▸ hrestored)
                  | gracePeriod =>
                      rw [hfrom] at hturned
                      cases hturned
                  | oldDisabled =>
                      rw [hfrom] at hturned
                      cases hturned
                  | _ =>
                      rw [hfrom] at hmanual
                      cases hmanual

/-- In every run that completes no rotation behind a rollback, a completed rotation has its replacement
    stored and validated, and no rollback of it wrote anything back before it was completed. -/
theorem completed_is_replaced (env : Env) {w : World Db Answer CoreError Rotation}
    (hrun : Steps (Step (system env) CompletesForward) (World.initial Db.empty) w) {row : Rotation}
    (hrow : row ∈ w.state.rotations) (hstate : row.state = .completed) :
    row.newVersion.isSome = true ∧ row.newValueValidated = true ∧
      ∃ u v, Steps (Step (system env) CompletesForward) (World.initial Db.empty) u ∧
        Step (system env) CompletesForward u v ∧ Steps (Step (system env) CompletesForward) v w ∧
        Completes u v row.id ∧ ∀ p ∈ u.procs, row.id ∉ (p.knows course Course.start).restored := by
  have hcompletion : row.newValueValidated = true ∧
      ∃ u v, Steps (Step (system env) CompletesForward) (World.initial Db.empty) u ∧
        Step (system env) CompletesForward u v ∧ Steps (Step (system env) CompletesForward) v w ∧
        Completes u v row.id ∧ ∀ p ∈ u.procs, row.id ∉ (p.knows course Course.start).restored := by
    -- By induction on the run: the step that completes the row is the last one, or an earlier one.
    induction hrun generalizing row with
    | refl => cases hrow
    | @tail u v hbefore hstep ih =>
        have hconf := System.conforms (obeysCourse_program env) hbefore
        rcases completed_step env (onCourse env hbefore) hconf hstep hrow hstate with
          ⟨s, hs, hcompleted, hid, hkept⟩ | ⟨hvalidated, hcompletes, hnone⟩
        · obtain ⟨hvalidated, u', v', hu', hstep', hv', hcompletes, hnone⟩ := ih hs hcompleted
          rw [hid] at hcompletes hnone
          exact ⟨hkept hvalidated, u', v', hu', hstep', hv'.tail hstep, hcompletes, hnone⟩
        · exact ⟨hvalidated, u, v, hbefore, hstep, .refl, hcompletes, hnone⟩
  exact ⟨((onCourse env hrun).sound row hrow).validated hcompletion.1, hcompletion⟩

/-- The only rotation is in the state. -/
def onlyIn (state : RotationState) (w : World Db Answer CoreError Rotation) : Bool :=
  decide (w.state.rotations.map (fun r => (r.id, r.state)) = [("r1".toList, state)])

theorem row_of_onlyIn {state : RotationState} {w : World Db Answer CoreError Rotation}
    (h : onlyIn state w = true) :
    ∃ row ∈ w.state.rotations, row.id = "r1".toList ∧ row.state = state := by
  have hmem : ("r1".toList, state) ∈ w.state.rotations.map fun r => (r.id, r.state) := by
    rw [of_decide_eq_true h]
    exact List.mem_singleton_self _
  obtain ⟨row, hrow, hfields⟩ := List.mem_map.1 hmem
  exact ⟨row, hrow, congrArg Prod.fst hfields, congrArg Prod.snd hfields⟩

/-- A process has written back in a rollback of the only rotation. -/
def restoredOnly (w : World Db Answer CoreError Rotation) : Bool :=
  w.procs.any fun p => (p.knows course Course.start).restored.contains "r1".toList

/-- A rotation in its grace period is rolled back; the vault value is restored, the destinations fail, and
    the rotation lands in `manual_required`, where it is about to be completed. -/
def completionAfterRollback : List (Move Op CoreError) :=
  [.turn (.start (planOf "r1")), .turn (.act 0 8), .turn (.start (.approve "r1".toList)),
    .turn (.act 1 10), .turn (.start (.advance "r1".toList none false)), .turn (.act 2 39),
    .turn (.start (.rollback "r1".toList false)), .turn (.act 3 8),
    .fail 3 (.vaultCorrupted "a destination failed"), .turn (.act 3 8),
    .turn (.start (.completeManual "r1".toList [])), .turn (.act 4 2)]

theorem completed_after_rollback :
    ∃ u v, Steps (Step (system revokeOnly) fun _ _ _ => True) (World.initial Db.empty) u ∧
      Step (system revokeOnly) (fun _ _ _ => True) u v ∧
      Completes u v "r1".toList ∧ ∃ p ∈ u.procs, "r1".toList ∈ (p.knows course Course.start).restored := by
  have hrun : (((World.initial Db.empty).play (system revokeOnly) (fun _ _ _ => True)
      (Action.reply plainAnswers) (fun _ => true) completionAfterRollback).map fun u =>
        (onlyIn .manualRequired u && restoredOnly u,
          (u.act (fun _ _ _ => True) (Action.reply plainAnswers) 4).map (onlyIn .completed)))
      = some (true, some true) := by
    decide
  obtain ⟨u, hu, hleft⟩ := Option.map_eq_some_iff.1 hrun
  obtain ⟨hbefore, hcompletion⟩ := Prod.mk.inj hleft
  obtain ⟨v, hv, hafter⟩ := Option.map_eq_some_iff.1 hcompletion
  obtain ⟨hmanual, hrestored⟩ := Bool.and_eq_true_iff.1 hbefore
  obtain ⟨s, hs, hsid, hsstate⟩ := row_of_onlyIn hmanual
  obtain ⟨p, hp, hid⟩ := List.any_eq_true.1 hrestored
  refine ⟨u, v, World.steps_play (fun _ _ _ h => exec_reply _ _ _ _ h) (fun _ _ _ _ => rfl) hu,
    World.step_act (fun _ _ _ h => exec_reply _ _ _ _ h) hv,
    ⟨⟨s, hs, hsid, by rw [hsstate]; decide⟩, row_of_onlyIn hafter⟩, p, hp, ?_⟩
  exact List.contains_iff_mem.1 hid

/-- No rollback has written anything. -/
def nothingRestored (w : World Db Answer CoreError Rotation) : Bool :=
  w.procs.all fun p => (p.knows course Course.start).restored.isEmpty

theorem completesForward_of_nothingRestored (w : World Db Answer CoreError Rotation)
    (p : Proc Answer CoreError Rotation) (e : Event Answer CoreError) (h : nothingRestored w = true) :
    CompletesForward w p e := by
  unfold CompletesForward
  split
  · intro q hq hid
    have hempty := List.isEmpty_iff.1 (List.all_eq_true.1 h q hq)
    rw [hempty] at hid
    cases hid
  · trivial

/-- A rotation that is advanced to its end. -/
theorem completed_is_replaced_one :
    ∃ w, Steps (Step (system revokeOnly) CompletesForward) (World.initial Db.empty) w ∧
      ∃ row ∈ w.state.rotations, row.state = .completed ∧ row.newVersion.isSome = true ∧
        row.newValueValidated = true := by
  obtain ⟨w, hrun, hleft⟩ := Option.map_eq_some_iff.1 (by decide :
    ((World.initial Db.empty).schedule (system revokeOnly) (fun w _ _ => nothingRestored w = true)
      (Action.reply plainAnswers) [.start (planOf "r1"), .act 0 8, .start (.approve "r1".toList),
        .act 1 10, .start (.advance "r1".toList none false), .act 2 58]).map (onlyIn .completed)
      = some true)
  have hsteps : Steps (Step (system revokeOnly) CompletesForward) (World.initial Db.empty) w :=
    Relation.ReflTransGen.mono
      (fun _ _ hstep => hstep.mono completesForward_of_nothingRestored) _ _
      (World.steps_schedule (fun _ _ _ h => exec_reply _ _ _ _ h) hrun)
  obtain ⟨row, hrow, -, hstate⟩ := row_of_onlyIn hleft
  have hreplaced := completed_is_replaced revokeOnly hsteps hrow hstate
  exact ⟨w, hsteps, row, hrow, hstate, hreplaced.1, hreplaced.2.1⟩

/-! ## Past the way forward -/

/-- A rotation that has ended or turned back goes no further forward, whatever operations, replies and crashes come
    behind it, and in whatever order. -/
theorem turned_for_good (env : Env) {u v : World Db Answer CoreError Rotation}
    (hbefore : Steps (Step (system env) fun _ _ _ => True) (World.initial Db.empty) u)
    (hrun : Steps (Step (system env) fun _ _ _ => True) u v) {id : Str} (h : u.state.Turned id) :
    v.state.Turned id := by
  induction hrun with
  | refl => exact h
  | @tail v w hsteps hstep ih =>
      cases hstep with
      | start op => exact ih
      | crash hp => exact ih
      | act hp hprog hexec hcond =>
          have hconf := System.conforms (obeysCourse_program env) (hbefore.trans hsteps)
          exact ih.exec (hconf _ (List.mem_of_getElem? hp) _ hprog).1 hexec

/-- A rotation is cancelled, and its approval begins. -/
theorem turned_for_good_cancelled :
    ∃ u v, Steps (Step (system revokeOnly) fun _ _ _ => True) (World.initial Db.empty) u ∧
      Steps (Step (system revokeOnly) fun _ _ _ => True) u v ∧ u.state.Turned "r1".toList ∧ v.state.Turned "r1".toList := by
  obtain ⟨u, hrun, hleft⟩ := Option.map_eq_some_iff.1 (by decide :
    ((World.initial Db.empty).schedule (system revokeOnly) (fun _ _ _ => True) (Action.reply plainAnswers)
      [.start (planOf "r1"), .act 0 8, .start (.cancel "r1".toList), .act 1 5]).map (onlyIn .failed) = some true)
  have hbefore := World.steps_schedule (fun _ _ _ h => exec_reply _ _ _ _ h) hrun
  have hturned : u.state.Turned "r1".toList := by
    refine ⟨?_, fun s hs _ => ?_⟩
    · obtain ⟨row, hrow, hid, -⟩ := row_of_onlyIn hleft
      exact ⟨row, hrow, hid⟩
    · have hmem := List.mem_map_of_mem (f := fun r : Rotation => (r.id, r.state)) hs
      rw [of_decide_eq_true hleft] at hmem
      rw [(Prod.mk.inj (List.mem_singleton.1 hmem)).2]
      rfl
  have hafter : Steps (Step (system revokeOnly) fun _ _ _ => True) u _ := .single (.start u (.approve "r1".toList))
  exact ⟨u, _, hbefore, hafter, hturned, turned_for_good revokeOnly hbefore hafter hturned⟩

end Tethra.Rotations
