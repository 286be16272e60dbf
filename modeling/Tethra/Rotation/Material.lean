import Tethra.Rotation.Versions

set_option autoImplicit false

/-! # The rollback material of a rotation

A store of a rotation is under way from its first read of the version until both are recorded. What is
recorded is the versions around the store, and the old value is kept, when nothing replaces the value or
prunes the retained row in between (`rollback_material_right`). -/

namespace Tethra.Rotations

open Interleave Runs

/-! ## The rotations -/

/-- The run of the rotation operations in it. -/
def Observed.plain (w : Observed) : World Db Answer CoreError Rotation :=
  ⟨w.world.state.db, w.world.procs, w.world.trace⟩

theorem VaultExec.frame {v v' : VaultValues} {a : Action} {x : Except CoreError (Answer a)}
    (h : VaultExec v a x v') :
    Exec v.db a x v'.db ∧ v'.credentials = v.credentials ∧ v'.retained = v.retained := by
  unfold VaultExec at h
  split at h
  · obtain ⟨rfl, -⟩ := h
    exact ⟨⟨trivial, rfl⟩, rfl, rfl⟩
  · exact h.elim
  · exact h

theorem exec_replaceCredentialValue (db : Db) (credentialId : Str)
    (x : Except CoreError (Answer (.request (.replaceCredentialValue credentialId)))) :
    Exec db (.request (.replaceCredentialValue credentialId)) x db := by
  cases x with
  | ok u => exact ⟨trivial, rfl⟩
  | error e => exact rfl

theorem VaultStep.plain {env : Env} {cipher : Cipher} {cond : Observed → Change → Prop} {w w' : Observed}
    (h : VaultStep env cipher cond w w') :
    Steps (Step (system env) fun _ _ _ => True) w.plain w'.plain := by
  cases h with
  | start op => exact .single (.start w.plain op)
  | crash hp => exact .single (.crash hp)
  | act hp hprog hexec hcond => exact .single (.act hp hprog hexec.frame.1 trivial)
  | @store i p credentialId next input v hp hprog hreplace x hcond =>
      obtain ⟨before, after, hreplaced⟩ := VaultValues.replaced hreplace
      have hexec : Exec w.world.state.db (.request (.replaceCredentialValue credentialId)) x v.db := by
        rw [hreplaced.db]
        exact exec_replaceCredentialValue _ _ x
      exact .single (.act hp hprog hexec trivial)
  | @replace credentialId input v hreplace hcond =>
      obtain ⟨before, after, hreplaced⟩ := VaultValues.replaced hreplace
      have hsame : Observed.plain { w with world := { w.world with state := v } } = w.plain := by
        simp [Observed.plain, hreplaced.db]
      rw [hsame]
  | sweep hcond => exact .refl

theorem plain_of_steps {env : Env} {cipher : Cipher} {cond : Observed → Change → Prop}
    {credentials : Str → Option Credential} {retained : List RetainedVersion} {w : Observed}
    (h : Steps (VaultStep env cipher cond) (Observed.initial credentials retained) w) :
    Steps (Step (system env) fun _ _ _ => True) (World.initial Db.empty) w.plain := by
  induction h with
  | refl => exact .refl
  | tail _ hstep ih => exact ih.trans hstep.plain

/-- The rotation is there, with its replacement recorded. -/
def Db.Recorded (db : Db) (id : Str) : Prop :=
  (∃ s ∈ db.rotations, s.id = id) ∧ ∀ s ∈ db.rotations, s.id = id → s.newVersion.isSome = true

/-- A dry run has recorded nothing, and no rotation goes back to one; in the states behind the store the
    replacement is recorded. -/
structure Begun (w : World Db Answer CoreError Rotation) : Prop where
  planned : ∀ row ∈ w.state.rotations, row.state = .planned → row.newVersion = none
  begun : ∀ p ∈ w.procs, ∀ row, (p.knows course Course.start).row = some row →
    row.state ≠ .planned → ∀ s ∈ w.state.rotations, s.id = row.id → s.state ≠ .planned
  stored : ∀ row ∈ w.state.rotations, row.state.afterStore = true → row.newVersion.isSome = true
  recorded : ∀ p ∈ w.procs, (p.knows course Course.start).recorded = true →
    ∀ row, (p.knows course Course.start).row = some row → w.state.Recorded row.id

theorem Db.Recorded.exec {db db' : Db} (hids : db.WellFormed) {id : Str} (h : db.Recorded id)
    {a : Action} {x : Except CoreError (Answer a)} (hexec : Exec db a x db') : db'.Recorded id := by
  obtain ⟨⟨s, hs, hsid⟩, hrecorded⟩ := h
  obtain ⟨r, hr, hpre⟩ := hexec.precedes hs
  refine ⟨⟨r, hr, hpre.id.trans hsid⟩, fun t ht htid => ?_⟩
  have hsame : t.id = r.id := htid.trans (hpre.id.trans hsid).symm
  rw [List.inj_on_of_nodup_map (hids.exec hexec) ht hr hsame]
  exact hpre.stored (hrecorded s hs hsid)

/-- A row that was loaded with its replacement recorded. -/
theorem Db.WellFormed.recorded {db : Db} (hids : db.WellFormed) {s : Rotation}
    (hs : s ∈ db.rotations) (h : s.newVersion.isSome = true) : db.Recorded s.id := by
  refine ⟨⟨s, hs, rfl⟩, fun t ht htid => ?_⟩
  rw [List.inj_on_of_nodup_map hids ht hs htid]
  exact h

/-- What a process has found or done to the record of its row. -/
theorem Begun.recorded_next {w : World Db Answer CoreError Rotation} (hc : OnCourse w) (hw : Begun w)
    {p : Proc Answer CoreError Rotation} (hp : p ∈ w.procs) {a : Action}
    {x : Except CoreError (Answer a)} {db' : Db} (hexec : Exec w.state a x db')
    (h : ((p.knows course Course.start).next a x).recorded = true) {row : Rotation}
    (hrow : ((p.knows course Course.start).next a x).row = some row) : db'.Recorded row.id := by
  have hkept : (p.knows course Course.start).recorded = true →
      (p.knows course Course.start).row = some row → db'.Recorded row.id := fun h hrow =>
    (hw.recorded p hp h row hrow).exec hc.wellFormed hexec
  have hids : ∀ {id : Str}, (p.knows course Course.start).row = some row →
      (p.knows course Course.start).rowIds.contains id = true → id = row.id := by
    intro id hrow hid
    simpa [Course.rowIds, hrow] using hid
  have hboth : ((p.knows course Course.start).next a x).recorded = true ∧
      ((p.knows course Course.start).next a x).row = some row := ⟨h, hrow⟩
  clear h hrow
  unfold Course.next at hboth
  split at hboth
  all_goals obtain ⟨h, hrow⟩ := hboth
  case h_1 id loaded =>
    obtain rfl := Option.some.inj hrow
    obtain ⟨hx, rfl⟩ := hexec
    exact hc.wellFormed.recorded (List.mem_of_find?_eq_some hx.symm) h
  case h_2 id loaded =>
    obtain ⟨hx, rfl⟩ := hexec
    obtain rfl : loaded = some row := hrow
    exact hc.wellFormed.recorded (List.mem_of_find?_eq_some hx.symm) h
  case h_3 id fresh =>
    rcases Bool.or_eq_true_iff.1 h with h | h
    · exact hkept h hrow
    · obtain ⟨hsome, hid⟩ := Bool.and_eq_true_iff.1 h
      obtain ⟨hx, rfl⟩ := hexec
      have hfound : decide (fresh.id = id) = true :=
        @List.find?_some _ (fun r : Rotation => decide (r.id = id)) _ _ hx.symm
      rw [← hids hrow hid, ← of_decide_eq_true hfound]
      exact hc.wellFormed.recorded (List.mem_of_find?_eq_some hx.symm) hsome
  case h_5 id old new x =>
    rcases Bool.or_eq_true_iff.1 h with h | h
    · exact hkept h hrow
    · obtain ⟨hok, hid⟩ := Bool.and_eq_true_iff.1 h
      cases x with
      | error e => cases hok
      | ok u =>
          -- The row is there, and is the one that the statement sets.
          obtain ⟨-, -, s, hs, hpre⟩ := hc.known p hp row hrow
          obtain ⟨r, hr, hpre'⟩ := hexec.precedes hs
          have hrid : r.id = row.id := hpre'.id.trans hpre.id
          rw [← hrid]
          refine (hc.wellFormed.exec hexec).recorded hr ?_
          obtain ⟨-, rfl⟩ := hexec
          obtain ⟨t, -, ⟨-, rfl⟩ | ⟨hne, rfl⟩⟩ := Db.mem_update hr
          · rfl
          · exact absurd (hrid.trans (hids hrow hid).symm) hne
  all_goals exact hkept h hrow

theorem begun_exec {k : Course} {db db' : Db} {a : Action} {x : Except CoreError (Answer a)}
    (hallowed : k.allowed a) (hexec : Exec db a x db') {id : Str} (hthere : ∃ s ∈ db.rotations, s.id = id)
    (h : ∀ s ∈ db.rotations, s.id = id → s.state ≠ .planned) :
    ∀ s ∈ db'.rotations, s.id = id → s.state ≠ .planned := by
  intro s hs hid
  cases x with
  | error e =>
      obtain rfl : db' = db := hexec
      exact h s hs hid
  | ok x =>
      obtain ⟨hanswer, rfl⟩ := hexec
      rcases Action.mem_rotations hs with rfl | ⟨t, ht, hsame, hstate, -⟩
      · obtain ⟨t, ht, htid⟩ := hthere
        exact absurd (htid.trans hid.symm) (hanswer t ht)
      · rcases hstate with hstate | rfl
        · rw [hstate]
          exact h t ht ((congrArg Prod.fst hsame).symm.trans hid)
        · exact hallowed.planned

theorem Begun.act {w : World Db Answer CoreError Rotation} {i : Nat}
    {p : Proc Answer CoreError Rotation} {a : Action} {next : Prog Rotation}
    {x : Except CoreError (Answer a)} {db' : Db} (hc : OnCourse w) (hw : Begun w)
    (hp : w.procs[i]? = some p) (hallowed : (p.knows course Course.start).allowed a)
    (hexec : Exec w.state a x db') : Begun (w.perform db' i (p.perform next ⟨a, x⟩) ⟨a, x⟩) := by
  have hmem : p ∈ w.procs := List.mem_of_getElem? hp
  have hknown : ∀ q ∈ w.procs, ∀ row, (q.knows course Course.start).row = some row →
      row.state ≠ .planned → ∀ s ∈ db'.rotations, s.id = row.id → s.state ≠ .planned := by
    intro q hq row hrow hstate
    obtain ⟨-, -, t, ht, hpre⟩ := hc.known q hq row hrow
    exact begun_exec hallowed hexec ⟨t, ht, hpre.id⟩ (hw.begun q hq row hrow hstate)
  refine ⟨?_, ?_, ?_, ?_⟩
  · intro row hrow hstate
    cases x with
    | error e =>
        obtain rfl : db' = w.state := hexec
        exact hw.planned row hrow hstate
    | ok x =>
        obtain ⟨-, rfl⟩ := hexec
        rcases Action.mem_rotations hrow with rfl | ⟨s, hs, -, hswap, hversions, -⟩
        · exact hallowed.2.2.1
        · rcases hswap with hsame | rfl
          · rw [hsame] at hstate
            rcases hversions with ⟨-, hnew⟩ | ⟨new, rfl, -⟩
            · rw [hnew]
              exact hw.planned s hs hstate
            · -- The versions are recorded for a row that was loaded in a later state.
              obtain ⟨loaded, old, hdecided, -, hstores, -⟩ := hallowed
              have hplanned : loaded.state ≠ .planned := fun h => by
                rw [h] at hstores
                cases hstores
              exact absurd hstate (hw.begun p hmem loaded hdecided.1 hplanned s hs
                (hc.precedes_of_decided hmem hdecided hs).id)
          · exact absurd hstate hallowed.planned
  · intro q hq row hrow hstate
    rcases List.mem_or_eq_of_mem_set hq with hq | rfl
    · exact hknown q hq row hrow hstate
    · rw [Proc.knows_perform] at hrow
      have hloaded : ∀ {id : Str}, w.state.find id = some row →
          ∀ s ∈ w.state.rotations, s.id = row.id → s.state ≠ .planned := by
        intro id hfind s hs hid
        rw [List.inj_on_of_nodup_map hc.wellFormed hs (List.mem_of_find?_eq_some hfind) hid]
        exact hstate
      change (Course.next _ a x).row = some row at hrow
      unfold Course.next at hrow
      split at hrow
      case h_1 id loaded =>
        obtain rfl := Option.some.inj hrow
        obtain ⟨hx, rfl⟩ := hexec
        exact hloaded hx.symm
      case h_2 id loaded =>
        obtain ⟨hx, rfl⟩ := hexec
        exact hloaded (hx.symm.trans hrow)
      all_goals exact hknown p hmem row hrow hstate
  · intro row hrow hafter
    cases x with
    | error e =>
        obtain rfl : db' = w.state := hexec
        exact hw.stored row hrow hafter
    | ok x =>
        obtain ⟨-, rfl⟩ := hexec
        rcases Action.mem_rotations hrow with rfl | ⟨s, hs, -, hswap, hversions, -⟩
        · rw [hallowed.1] at hafter
          cases hafter
        · have hkept : s.newVersion.isSome = true → row.newVersion.isSome = true := by
            intro h
            rcases hversions with ⟨-, hnew⟩ | ⟨new, -, hnew⟩
            · rw [hnew]
              exact h
            · rw [hnew]
              rfl
          rcases hswap with hsame | rfl
          · exact hkept (hw.stored s hs (hsame ▸ hafter))
          · rcases hallowed.stored hafter with hfrom | ⟨loaded, hdecided, hfound⟩
            · exact hkept (hw.stored s hs hfrom)
            · have hpre := hc.precedes_of_decided hmem hdecided hs
              rcases hfound with hrecorded | hold
              · exact hkept ((hw.recorded p hmem hrecorded loaded hdecided.1).2 s hs hpre.id)
              · obtain ⟨-, hsound, -⟩ := hc.known p hmem loaded hdecided.1
                exact hkept (hpre.stored (hsound.old hold))
  · refine forall_procs_set (fun q hq h row hrow => (hw.recorded q hq h row hrow).exec hc.wellFormed hexec)
      fun h row hrow => ?_
    rw [Proc.knows_perform] at h hrow
    exact hw.recorded_next hc hmem hexec h hrow

theorem begun (env : Env) {w : World Db Answer CoreError Rotation}
    (hrun : Steps (Step (system env) fun _ _ _ => True) (World.initial Db.empty) w) : Begun w := by
  have hboth : OnCourse w ∧ Begun w := by
    refine System.invariant (I := fun w => OnCourse w ∧ Begun w) course Course.start
      (obeysCourse_program env) ?_ ?_ ?_ ⟨.initial, fun _ h => (by cases h), fun _ h => (by cases h),
        fun _ h => (by cases h), fun _ h => (by cases h)⟩ hrun
    · rintro w op ⟨hc, hw⟩
      exact ⟨hc.start (op.program env), hw.planned, forall_procs_start hw.begun fun _ h => (by cases h),
        hw.stored, forall_procs_start hw.recorded fun h => (by cases h)⟩
    · rintro w i p a next x db' ⟨hc, hw⟩ hp - hallowed hexec -
      exact ⟨hc.act hp hallowed hexec, hw.act hc hp hallowed hexec⟩
    · rintro w i p ⟨hc, hw⟩ hp
      have hmem := List.mem_of_getElem? hp
      exact ⟨hc.crash hp, hw.planned, forall_procs_set hw.begun (hw.begun p hmem), hw.stored,
        forall_procs_set hw.recorded (hw.recorded p hmem)⟩
  exact hboth.2

/-! ## The stores under way -/

/-- The store of the row's rotation is the last replacement of its credential, and what it retained is
    there. -/
structure OwnStore.Underway (cipher : Cipher) (v : VaultValues) (row : Rotation) (s : OwnStore) : Prop where
  rotation : s.rotationId = row.id
  credential : s.credentialId = row.credentialId
  current : v.credentials s.credentialId = some s.after
  kept : v.Keeps cipher s

/-- What a process has read for a store is still the case. -/
def Window (cipher : Cipher) (v : VaultValues) (stores : List OwnStore) (decided : Option Rotation) :
    Storing → Prop
  | .read old => ∀ row, decided = some row →
      (v.credentials row.credentialId).map Credential.version = some old
  | .replaced old => ∀ row, decided = some row →
      ∃ s ∈ stores, s.Underway cipher v row ∧ s.before.version = old
  | .reread old new => ∀ row, decided = some row →
      ∃ s ∈ stores, s.Underway cipher v row ∧ s.before.version = old ∧ s.after.version = new
  | _ => True

/-- What the process knows of its store is the case. -/
def Course.Current (cipher : Cipher) (v : VaultValues) (stores : List OwnStore) (k : Course) : Prop :=
  Window cipher v stores k.row k.storing

section Window

variable {cipher : Cipher} {v v' : VaultValues} {stores stores' : List OwnStore} {k : Course}

theorem OwnStore.Underway.mono {row : Rotation} {s : OwnStore} (h : s.Underway cipher v row)
    (hcred : v'.credentials row.credentialId = v.credentials row.credentialId)
    (hkept : ∀ r ∈ v.retained, r.credentialId = row.credentialId → r.version = s.before.version →
      r ∈ v'.retained) : s.Underway cipher v' row := by
  refine ⟨h.rotation, h.credential, ?_, ?_⟩
  · rw [h.credential, hcred, ← h.credential]
    exact h.current
  · obtain ⟨r, hr, hid, hversion, htext⟩ := h.kept
    exact ⟨r, hkept r hr (hid.trans h.credential) hversion, hid, hversion, htext⟩

/-- What does not touch the credential or the retained row of a store leaves it as it is. -/
theorem Course.Current.mono (h : k.Current cipher v stores)
    (hcred : ∀ id, k.storesInto id = true → v'.credentials id = v.credentials id)
    (hkept : ∀ r ∈ v.retained, k.hasRetained r = true → r ∈ v'.retained)
    (hsub : ∀ s ∈ stores, s ∈ stores') : k.Current cipher v' stores' := by
  unfold Course.Current at h ⊢
  cases hs : k.storing with
  | idle => trivial
  | checked => trivial
  | read old =>
      rw [hs] at h
      intro row hrow
      rw [hcred row.credentialId (by simp [Course.storesInto, hs, hrow])]
      exact h row hrow
  | replaced old =>
      rw [hs] at h
      intro row hrow
      obtain ⟨s, hmem, hunder, hold⟩ := h row hrow
      refine ⟨s, hsub s hmem, hunder.mono (hcred _ (by simp [Course.storesInto, hs, hrow]))
        fun r hr hid hversion => hkept r hr ?_, hold⟩
      simp [Course.hasRetained, hs, hrow, hid, hversion, hold]
  | reread old new =>
      rw [hs] at h
      intro row hrow
      obtain ⟨s, hmem, hunder, hold, hnew⟩ := h row hrow
      refine ⟨s, hsub s hmem, hunder.mono (hcred _ (by simp [Course.storesInto, hs, hrow]))
        fun r hr hid hversion => hkept r hr ?_, hold, hnew⟩
      simp [Course.hasRetained, hs, hrow, hid, hversion, hold]

/-- A version that is read is the current one. -/
theorem Window.readVersion {row : Rotation} {storing : Storing}
    (h : Window cipher v stores (some row) storing) {version : Int}
    (hread : (v.credentials row.credentialId).map Credential.version = some version) :
    Window cipher v stores (some row) (storing.readVersion (some version)) := by
  have hafter : ∀ s : OwnStore, s.Underway cipher v row → s.after.version = version := by
    intro s hunder
    rw [← hunder.credential, hunder.current] at hread
    exact Option.some.inj hread
  cases storing with
  | idle => trivial
  | checked =>
      rintro row ⟨rfl⟩
      exact hread
  | read old =>
      rintro row ⟨rfl⟩
      exact hread
  | replaced old =>
      rintro row ⟨rfl⟩
      obtain ⟨s, hmem, hunder, hold⟩ := h row rfl
      exact ⟨s, hmem, hunder, hold, hafter s hunder⟩
  | reread old new =>
      rintro row ⟨rfl⟩
      obtain ⟨s, hmem, hunder, hold, -⟩ := h row rfl
      exact ⟨s, hmem, hunder, hold, hafter s hunder⟩

/-- An action that commits no replacement keeps what its process knows. -/
theorem Course.Current.next (h : k.Current cipher v stores) {a : Action} {x : Except CoreError (Answer a)}
    (hallowed : k.allowed a) (hexec : VaultExec v a x v') : (k.next a x).Current cipher v stores := by
  unfold Course.Current at h ⊢
  unfold Course.next
  split
  case h_1 => trivial
  case h_2 => trivial
  case h_3 id fresh =>
    generalize (fresh.newVersion.isNone && k.rowIds.contains id) = unrecorded
    generalize k.storing = storing at h ⊢
    cases storing with
    | idle => cases unrecorded <;> trivial
    | checked => cases unrecorded <;> trivial
    | read old => exact h
    | replaced old => exact h
    | reread old new => exact h
  case h_5 => trivial
  case h_6 credentialId x =>
    cases x with
    | error e =>
        show Window cipher v stores k.row (k.storing.readVersion none)
        cases k.storing <;> trivial
    | ok version =>
        obtain ⟨row, hrow, rfl⟩ := hallowed
        show Window cipher v stores k.row (k.storing.readVersion (some version))
        rw [hrow] at h ⊢
        exact h.readVersion hexec.2
  case h_7 credentialId x =>
    cases x with
    | error e =>
        show Window cipher v stores k.row (k.storing.replace (k.advancing && false))
        rw [Bool.and_false]
        cases k.storing <;> trivial
    | ok u => exact hexec.elim
  all_goals exact h

/-- A process that commits its replacement knows it as the store of its rotation. -/
theorem Course.Current.store (h : k.Current cipher v stores) {credentialId : Str} {input : Replacement}
    {before after : Credential} (hreplaced : v.Replaced cipher credentialId input v' before after)
    (hallowed : k.allowed (.request (.replaceCredentialValue credentialId)))
    (hclock : k.advancing = true → ∀ cutoff ∈ input.cutoff, ¬input.now < cutoff)
    (x : Except CoreError (Answer (.request (.replaceCredentialValue credentialId)))) :
    (k.next (.request (.replaceCredentialValue credentialId)) x).Current cipher v'
      (stores ++ k.ownStores credentialId v v') := by
  obtain ⟨row, hrow, rfl, -⟩ := hallowed
  show Window cipher v' _ k.row (k.storing.replace (k.advancing && x.isOk))
  unfold Course.Current at h
  cases hs : k.storing with
  | read old =>
      rw [hs] at h
      cases hdone : k.advancing && x.isOk with
      | false => trivial
      | true =>
          have hadvancing : k.advancing = true := (Bool.and_eq_true_iff.1 hdone).1
          intro row' hrow'
          obtain rfl := Option.some.inj (hrow.symm.trans hrow')
          have hold : before.version = old := by
            have hread := h row hrow
            rw [hreplaced.outgoing] at hread
            exact Option.some.inj hread
          refine ⟨⟨row.id, row.credentialId, before, after⟩, ?_,
            ⟨rfl, rfl, hreplaced.incoming, hreplaced.retained (hclock hadvancing) row.id⟩, hold⟩
          simp [Course.ownStores, Course.rowIds, hadvancing, hreplaced.outgoing, hreplaced.incoming, hrow]
  | idle => trivial
  | checked => trivial
  | replaced old => trivial
  | reread old new => trivial

end Window

/-! ## Every run -/

/-- What holds in every state of an undisturbed run. -/
structure Material (cipher : Cipher) (w : Observed) : Prop where
  /-- The version of a credential has gone beyond what was stored over. -/
  counted : ∀ s ∈ w.stores, ∃ c, w.world.state.credentials s.credentialId = some c ∧
    s.before.version < c.version
  single : ∀ s ∈ w.stores, ∀ t ∈ w.stores, s.rotationId = t.rotationId → s = t
  window : ∀ q ∈ w.world.procs, q.prog.isSome = true →
    (q.knows course Course.start).Current cipher w.world.state w.stores
  recorded : ∀ row ∈ w.world.state.db.rotations, row.newVersion.isSome = true →
    ∃ s ∈ w.stores, s.RecordedIn row ∧ (row.state.inFlight = true → w.world.state.Keeps cipher s)

section Material

variable {cipher : Cipher} {w : Observed}

/-- The prunes spare what a rotation in flight has recorded. -/
theorem Material.exempts {row : Rotation} (hrow : row ∈ w.world.state.db.rotations)
    (hflight : row.state.inFlight = true) {s : OwnStore} (hs : s.RecordedIn row) {r : RetainedVersion}
    (hid : r.credentialId = s.credentialId) (hversion : r.version = s.before.version) :
    w.world.state.db.exempts r = true := by
  refine List.any_eq_true.2 ⟨row, hrow, ?_⟩
  simp [hid, hversion, hs.credential, hs.old, hflight]

/-- A replacement keeps the recorded material and the versions counted. -/
theorem Material.replaced (h : Material cipher w) {credentialId : Str} {input : Replacement} {v : VaultValues}
    {before after : Credential}
    (hreplaced : w.world.state.Replaced cipher credentialId input v before after) :
    (∀ s ∈ w.stores, ∃ c, v.credentials s.credentialId = some c ∧ s.before.version < c.version) ∧
    ∀ row ∈ v.db.rotations, row.newVersion.isSome = true → ∃ s ∈ w.stores, s.RecordedIn row ∧
      (row.state.inFlight = true → v.Keeps cipher s) := by
  constructor
  · intro s hs
    obtain ⟨c, hc, hlt⟩ := h.counted s hs
    by_cases hid : s.credentialId = credentialId
    · have hbefore : c = before := by
        rw [hid] at hc
        exact Option.some.inj (hc.symm.trans hreplaced.outgoing)
      refine ⟨after, by rw [hid]; exact hreplaced.incoming, ?_⟩
      rw [hreplaced.version, ← hbefore]
      omega
    · exact ⟨c, (hreplaced.others _ hid).trans hc, hlt⟩
  · intro row hrow hnew
    rw [hreplaced.db] at hrow
    obtain ⟨s, hs, hrec, hkeeps⟩ := h.recorded row hrow hnew
    refine ⟨s, hs, hrec, fun hflight => ?_⟩
    obtain ⟨r, hr, hid, hversion, htext⟩ := hkeeps hflight
    refine ⟨r, hreplaced.kept r hr ?_, hid, hversion, htext⟩
    by_cases hcred : r.credentialId = credentialId
    · -- The version that is retained now is a later one.
      obtain ⟨c, hc, hlt⟩ := h.counted s hs
      rw [← hid, hcred, hreplaced.outgoing] at hc
      obtain rfl := Option.some.inj hc
      exact .inr ⟨by omega, Material.exempts hrow hflight hrec hid hversion⟩
    · exact .inl hcred

/-- A store that is not under way is not touched by a replacement. -/
theorem Course.Current.replaced {v : VaultValues} {stores stores' : List OwnStore} {k : Course} {v' : VaultValues}
    (h : k.Current cipher v stores) {credentialId : Str} {input : Replacement} {before after : Credential}
    (hreplaced : v.Replaced cipher credentialId input v' before after)
    (hnot : k.storesInto credentialId = false) (hsub : ∀ s ∈ stores, s ∈ stores') :
    k.Current cipher v' stores' := by
  have hother : ∀ id, k.storesInto id = true → id ≠ credentialId := by
    rintro id hid rfl
    rw [hnot] at hid
    cases hid
  refine h.mono (fun id hid => hreplaced.others id (hother id hid)) (fun r hr hret => ?_) hsub
  refine hreplaced.kept r hr (.inl (hother _ ?_))
  unfold Course.hasRetained at hret
  unfold Course.storesInto
  cases hs : k.storing with
  | idle => rw [hs] at hret; cases hret
  | checked => rw [hs] at hret; cases hret
  | read old => rw [hs] at hret; cases hret
  | replaced old =>
      rw [hs] at hret
      obtain ⟨row, hrow, hmatch⟩ := (Option.any_eq_true _ _).1 hret
      simp only [Bool.and_eq_true, decide_eq_true_eq] at hmatch
      simp [hrow, hmatch.1]
  | reread old new =>
      rw [hs] at hret
      obtain ⟨row, hrow, hmatch⟩ := (Option.any_eq_true _ _).1 hret
      simp only [Bool.and_eq_true, decide_eq_true_eq] at hmatch
      simp [hrow, hmatch.1]

/-- The rows behind an action that commits no replacement. -/
theorem Material.recorded_act (h : Material cipher w) (hc : OnCourse w.plain) (hb : Begun w.plain)
    {p : Proc Answer CoreError Rotation} (hp : p ∈ w.world.procs) (hlive : p.prog.isSome = true)
    {a : Action} {x : Except CoreError (Answer a)} {v : VaultValues}
    (hallowed : (p.knows course Course.start).allowed a) (hexec : VaultExec w.world.state a x v)
    (hcond : Undisturbed w (.action ⟨a, x⟩)) :
    ∀ row ∈ v.db.rotations, row.newVersion.isSome = true → ∃ s ∈ w.stores, s.RecordedIn row ∧
      (row.state.inFlight = true → w.world.state.Keeps cipher s) := by
  obtain ⟨hdb, -, -⟩ := hexec.frame
  intro row hrow hnew
  cases x with
  | error e =>
      have hsame : v.db = w.world.state.db := hdb
      rw [hsame] at hrow
      exact h.recorded row hrow hnew
  | ok x =>
      obtain ⟨hanswer, heffect⟩ := hdb
      rw [heffect] at hrow
      rcases Action.mem_rotations hrow with rfl | ⟨s, hs, hident, hstate, hversions, -⟩
      · rw [hallowed.2.2.1] at hnew
        cases hnew
      · have hid : row.id = s.id := congrArg Prod.fst hident
        have hcredential : row.credentialId = s.credentialId :=
          congrArg (fun i : Str × Str × Str × Option Str => i.2.1) hident
        rcases hversions with ⟨hold, hsame⟩ | ⟨new, rfl, hrecorded⟩
        · obtain ⟨t, ht, hrec, hkeeps⟩ := h.recorded s hs (hsame ▸ hnew)
          refine ⟨t, ht, ⟨hrec.rotation.trans hid.symm, hrec.credential.trans hcredential.symm,
            hold.trans hrec.old, hsame.trans hrec.new⟩, fun hflight => hkeeps ?_⟩
          rcases hstate with hstate | rfl
          · rw [← hstate]
            exact hflight
          · -- The rotation was in flight before the swap.
            by_contra hended
            have hended : s.state.inFlight = false := by simpa using hended
            rcases hallowed.ended hended with hplanned | hover | hback
            · rw [hsame, hb.planned s hs hplanned] at hnew
              cases hnew
            · rw [hflight] at hover
              cases hover
            · rw [hback] at hcond hanswer
              have hswapped : x = true := by
                refine hanswer.trans (List.any_eq_true.2 ⟨s, hs, ?_⟩)
                simp
              have htaken : s.state.inFlight = true := hcond hswapped
              rw [htaken] at hended
              cases hended
        · obtain ⟨loaded, old, hdecided, -, -, hstoring, hold, -⟩ := hallowed
          have hwindow := h.window p hp hlive
          unfold Course.Current at hwindow
          rw [hstoring] at hwindow
          obtain ⟨t, ht, hunder, hbefore, hafter⟩ := hwindow loaded hdecided.1
          have hpre := hc.precedes_of_decided hp hdecided hs
          have hlcred : loaded.credentialId = row.credentialId :=
            (congrArg (fun i : Str × Str × Str × Option Str => i.2.1) hpre.identity).symm.trans
              hcredential.symm
          refine ⟨t, ht, ⟨(hunder.rotation.trans hpre.id.symm).trans hid.symm, hunder.credential.trans hlcred,
            ?_, ?_⟩, fun _ => hunder.kept⟩
          · rw [hold, hbefore]
          · rw [hrecorded, hafter]

end Material

/-- One step of an undisturbed run keeps the material. -/
theorem Material.step {env : Env} {cipher : Cipher} {w w' : Observed} (h : Material cipher w)
    (hc : OnCourse w.plain) (hb : Begun w.plain) (hconf : w.plain.Conforms course Course.start)
    (hstep : VaultStep env cipher Undisturbed w w') : Material cipher w' := by
  cases hstep with
  | start op =>
      exact ⟨h.counted, h.single, forall_procs_start h.window fun _ => trivial, h.recorded⟩
  | crash hp =>
      exact ⟨h.counted, h.single, forall_procs_set h.window fun hlive => (by cases hlive), h.recorded⟩
  | @act i p a next x v hp hprog hexec hcond =>
      have hmem : p ∈ w.world.procs := List.mem_of_getElem? hp
      have hlive : p.prog.isSome = true := by simp [hprog]
      have hallowed := (hconf p hmem _ hprog).1
      obtain ⟨-, hcred, hret⟩ := hexec.frame
      have hkeeps : ∀ s, w.world.state.Keeps cipher s → v.Keeps cipher s := by
        rintro s ⟨r, hr, hrest⟩
        exact ⟨r, by rw [hret]; exact hr, hrest⟩
      have hwindow : ∀ {k : Course}, k.Current cipher w.world.state w.stores →
          k.Current cipher v w.stores := fun hk =>
        hk.mono (fun id _ => by rw [hcred]) (fun r hr _ => by rw [hret]; exact hr) fun _ hs => hs
      refine ⟨fun s hs => ?_, h.single, forall_procs_set
        (fun q hq hq' => hwindow (h.window q hq hq')) fun _ => ?_, fun row hrow hnew => ?_⟩
      · show ∃ c, v.credentials s.credentialId = some c ∧ _
        rw [hcred]
        exact h.counted s hs
      · rw [Proc.knows_perform]
        exact hwindow ((h.window p hmem hlive).next hallowed hexec)
      · obtain ⟨s, hs, hrec, hkept⟩ := h.recorded_act hc hb hmem hlive hallowed hexec hcond row hrow hnew
        exact ⟨s, hs, hrec, fun hflight => hkeeps s (hkept hflight)⟩
  | @store i p credentialId next input v hp hprog hreplace x hcond =>
      have hmem : p ∈ w.world.procs := List.mem_of_getElem? hp
      have hlive : p.prog.isSome = true := by simp [hprog]
      have hallowed := (hconf p hmem _ hprog).1
      obtain ⟨hnone, hown⟩ := hcond
      obtain ⟨before, after, hreplaced⟩ := VaultValues.replaced hreplace
      obtain ⟨hcounted, hrecorded⟩ := h.replaced hreplaced
      have hnew : ∀ s ∈ (p.knows course Course.start).ownStores credentialId w.world.state v,
          (p.knows course Course.start).advancing = true ∧
          s.rotationId ∈ (p.knows course Course.start).rowIds ∧
          s = ⟨s.rotationId, credentialId, before, after⟩ := by
        intro s hs
        unfold Course.ownStores at hs
        rw [hreplaced.outgoing, hreplaced.incoming] at hs
        split at hs
        · rename_i hadvancing hb' ha'
          obtain rfl := Option.some.inj hb'
          obtain rfl := Option.some.inj ha'
          obtain ⟨id, hid, rfl⟩ := List.mem_map.1 hs
          exact ⟨hadvancing, hid, rfl⟩
        · cases hs
      refine ⟨fun s hs => ?_, fun s hs t ht hst => ?_, fun q hq hq' => ?_, fun row hrow hnew' => ?_⟩
      · rcases List.mem_append.1 hs with hs | hs
        · exact hcounted s hs
        · obtain ⟨-, -, heq⟩ := hnew s hs
          rw [heq]
          refine ⟨after, hreplaced.incoming, ?_⟩
          rw [hreplaced.version]
          exact Int.lt_succ _
      · rcases List.mem_append.1 hs with hs | hs
        · rcases List.mem_append.1 ht with ht | ht
          · exact h.single s hs t ht hst
          · obtain ⟨hadvancing, hid, -⟩ := hnew t ht
            exact absurd (hst ▸ hid) ((hown hadvancing).1 s hs)
        · rcases List.mem_append.1 ht with ht | ht
          · obtain ⟨hadvancing, hid, -⟩ := hnew s hs
            exact absurd (hst ▸ hid) ((hown hadvancing).1 t ht)
          · rw [(hnew s hs).2.2, (hnew t ht).2.2, hst]
      · obtain ⟨j, hj⟩ := List.mem_iff_getElem?.1 hq
        change (w.world.procs.set i _)[j]? = some q at hj
        by_cases hij : i = j
        · subst hij
          rw [List.getElem?_set_self (List.getElem?_eq_some_iff.1 hp).1] at hj
          obtain rfl := Option.some.inj hj
          rw [Proc.knows_perform]
          exact (h.window p hmem hlive).store hreplaced hallowed (fun hadv => (hown hadv).2) x
        · have hj' : w.world.procs[j]? = some q := by
            rw [← hj]
            exact (List.getElem?_set_ne hij).symm
          have hnot : (q.knows course Course.start).storesInto credentialId = false := by
            by_contra hinto
            exact hnone ⟨j, q, hj', fun h => hij (Option.some.inj h).symm, hq', by simpa using hinto⟩
          exact (h.window q (List.mem_of_getElem? hj') hq').replaced hreplaced hnot
            fun s hs => List.mem_append_left _ hs
      · obtain ⟨s, hs, hrec, hkept⟩ := hrecorded row hrow hnew'
        exact ⟨s, List.mem_append_left _ hs, hrec, hkept⟩
  | @replace credentialId input v hreplace hcond =>
      obtain ⟨before, after, hreplaced⟩ := VaultValues.replaced hreplace
      obtain ⟨hcounted, hrecorded⟩ := h.replaced hreplaced
      refine ⟨hcounted, h.single, fun q hq hq' => ?_, hrecorded⟩
      obtain ⟨j, hj⟩ := List.mem_iff_getElem?.1 hq
      have hnot : (q.knows course Course.start).storesInto credentialId = false := by
        by_contra hinto
        exact hcond ⟨j, q, hj, (by simp), hq', by simpa using hinto⟩
      exact (h.window q hq hq').replaced hreplaced hnot fun s hs => hs
  | @sweep cutoff hcond =>
      refine ⟨h.counted, h.single, fun q hq hq' => ?_, fun row hrow hnew => ?_⟩
      · refine (h.window q hq hq').mono (fun _ _ => rfl) (fun r hr hret => ?_) fun s hs => hs
        exact VaultValues.mem_prune.2 ⟨hr, .inl (by simpa using hcond q hq hq' r hr hret)⟩
      · obtain ⟨s, hs, hrec, hkeeps⟩ := h.recorded row hrow hnew
        refine ⟨s, hs, hrec, fun hflight => ?_⟩
        obtain ⟨r, hr, hid, hversion, htext⟩ := hkeeps hflight
        exact ⟨r, VaultValues.mem_prune.2 ⟨hr, .inr (Material.exempts hrow hflight hrec hid hversion)⟩, hid,
          hversion, htext⟩

/-- In every undisturbed run, of any operations, replacements, prunes and crashes, the rollback material of
    every rotation in flight is right. -/
theorem rollback_material_right (env : Env) (cipher : Cipher)
    (credentials : Str → Option Credential) (retained : List RetainedVersion) {w : Observed}
    (hrun : Steps (VaultStep env cipher Undisturbed) (Observed.initial credentials retained) w) :
    w.MaterialRight cipher := by
  have hmaterial : Material cipher w := by
    induction hrun with
    | refl =>
        exact ⟨fun _ h => (by cases h), fun _ h => (by cases h), fun _ h => (by cases h),
          fun _ h => (by cases h)⟩
    | tail hbefore hstep ih =>
        have hplain := plain_of_steps hbefore
        exact ih.step (onCourse env hplain) (begun env hplain)
          (System.conforms (obeysCourse_program env) hplain) hstep
  intro row hrow hflight hstored
  have hnew : row.newVersion.isSome = true := hstored.elim (fun h => h) 
    ((begun env (plain_of_steps hrun)).stored row hrow)
  obtain ⟨s, hs, hrec, hkeeps⟩ := hmaterial.recorded row hrow hnew
  exact ⟨s, hs, fun t ht hid => hmaterial.single t ht s hs (hid.trans hrec.rotation.symm), hrec,
    hkeeps hflight⟩

/-! ## Schedules -/

/-- A move of a schedule: an operation is started, a process performs so many actions, or another session
    replaces a value. -/
inductive VaultMove where
  | start (op : Op)
  | act (i times : Nat)
  | replace (credentialId : Str)

/-- The successful reply of an action that replaces no value. -/
def VaultValues.reply (answers : (r : Request) → r.Answer) (v : VaultValues) : (a : Action) → Option (Answer a × VaultValues)
  | .request (.valueVersionOf credentialId) => (v.credentials credentialId).map fun c => (c.version, v)
  | .request (.replaceCredentialValue _) => none
  | a => (a.reply answers v.db).map fun x => (x.1, { v with db := x.2 })

theorem vaultExec_reply {answers : (r : Request) → r.Answer} {v : VaultValues} {a : Action}
    {x : Answer a × VaultValues} (h : v.reply answers a = some x) : VaultExec v a (.ok x.1) x.2 := by
  unfold VaultValues.reply at h
  split at h
  · obtain ⟨c, hc, rfl⟩ := Option.map_eq_some_iff.1 h
    exact ⟨rfl, by rw [hc]; rfl⟩
  · cases h
  · rename_i hversion hreplace
    obtain ⟨y, hy, rfl⟩ := Option.map_eq_some_iff.1 h
    unfold VaultExec
    split
    · exact absurd rfl (hversion _)
    · exact absurd rfl (hreplace _)
    · exact ⟨@exec_reply revokeOnly answers v.db _ y hy, rfl, rfl⟩

section Moves

variable (env : Env) (cipher : Cipher) (ok : Observed → Change → Bool) (answers : (r : Request) → r.Answer)
  (input : Replacement)

def Observed.act (w : Observed) (i : Nat) : Option Observed :=
  match w.world.procs[i]? with
  | some ⟨some (.act (.request (.replaceCredentialValue credentialId)) next), history⟩ =>
      let p : Proc Answer CoreError Rotation :=
        ⟨some (.act (.request (.replaceCredentialValue credentialId)) next), history⟩
      match w.world.state.replaceCredentialValue cipher credentialId input with
      | some v =>
          if ok w (.store i p credentialId input) then
            some ⟨w.world.perform v i
                (p.perform (next (.ok ())) ⟨.request (.replaceCredentialValue credentialId), .ok ()⟩)
                ⟨.request (.replaceCredentialValue credentialId), .ok ()⟩,
              w.stores ++ (p.knows course Course.start).ownStores credentialId w.world.state v⟩
          else none
      | none => none
  | some ⟨some (.act a next), history⟩ =>
      let p : Proc Answer CoreError Rotation := ⟨some (.act a next), history⟩
      match w.world.state.reply answers a with
      | some (x, v) =>
          if ok w (.action ⟨a, .ok x⟩) then
            some { w with world := w.world.perform v i (p.perform (next (.ok x)) ⟨a, .ok x⟩) ⟨a, .ok x⟩ }
          else none
      | none => none
  | _ => none

def Observed.acts (i : Nat) : Nat → Observed → Option Observed
  | 0, w => some w
  | n + 1, w => (w.act cipher ok answers input i).bind (acts i n)

def Observed.move (w : Observed) : VaultMove → Option Observed
  | .start op =>
      some { w with world := { w.world with procs := w.world.procs ++ [⟨some (op.program env), []⟩] } }
  | .act i times => w.acts cipher ok answers input i times
  | .replace credentialId =>
      match w.world.state.replaceCredentialValue cipher credentialId input with
      | some v =>
          if ok w (.replace credentialId) then some { w with world := { w.world with state := v } } else none
      | none => none

def Observed.moves : List VaultMove → Observed → Option Observed
  | [], w => some w
  | m :: ms, w => (w.move env cipher ok answers input m).bind (moves ms)

variable {env cipher ok answers input} {cond : Observed → Change → Prop}
  (hok : ∀ w c, ok w c = true → cond w c)

include hok in
theorem Observed.step_act {w w' : Observed} {i : Nat} (h : w.act cipher ok answers input i = some w') :
    VaultStep env cipher cond w w' := by
  unfold Observed.act at h
  split at h
  · rename_i hp
    split at h
    · rename_i v hreplace
      dsimp only at h
      split_ifs at h with hcond
      obtain rfl := Option.some.inj h
      exact .store hp rfl hreplace (.ok ()) (hok _ _ hcond)
    · cases h
  · rename_i hp
    split at h
    · rename_i x v hx
      dsimp only at h
      split_ifs at h with hcond
      obtain rfl := Option.some.inj h
      exact .act hp rfl (vaultExec_reply hx) (hok _ _ hcond)
    · cases h
  · cases h

include hok in
/-- A list of moves is a run. -/
theorem Observed.steps_moves {ms : List VaultMove} {w w' : Observed}
    (h : w.moves env cipher ok answers input ms = some w') : Steps (VaultStep env cipher cond) w w' := by
  have hacts : ∀ (n : Nat) {w w' : Observed} {i : Nat}, w.acts cipher ok answers input i n = some w' →
      Steps (VaultStep env cipher cond) w w' := by
    intro n
    induction n with
    | zero =>
        intro w w' i h
        obtain rfl := Option.some.inj h
        exact .refl
    | succ n ih =>
        intro w w' i h
        obtain ⟨v, hv, hrest⟩ := Option.bind_eq_some_iff.1 h
        exact .head (Observed.step_act hok hv) (ih hrest)
  induction ms generalizing w with
  | nil =>
      obtain rfl := Option.some.inj h
      exact .refl
  | cons m ms ih =>
      obtain ⟨v, hv, hrest⟩ := Option.bind_eq_some_iff.1 h
      refine .trans ?_ (ih hrest)
      cases m with
      | start op =>
          obtain rfl := Option.some.inj hv
          exact .single (.start w op)
      | act i times => exact hacts times hv
      | replace credentialId =>
          simp only [Observed.move] at hv
          split at hv
          · rename_i u hreplace
            split_ifs at hv with hcond
            obtain rfl := Option.some.inj hv
            exact .single (.replace hreplace (hok _ _ hcond))
          · cases hv

end Moves

/-- A cipher of no strength. -/
def plainCipher : Cipher := ⟨fun _ _ plaintext => plaintext, fun _ => some, fun _ _ _ => rfl⟩

/-- A provider without an API for keys. -/
def manualAnswers : (r : Request) → r.Answer
  | .rotationModeFor _ => Mode.manualCreate
  | r => plainAnswers r

def newValue : Replacement := ⟨"new".toList, [], none, 0, 0⟩

/-- The credential `c1` at its first version. -/
def firstVersion : Observed :=
  Observed.initial (fun id => if id = "c1".toList then some ⟨1, some [], false⟩ else none) []

/-- What is recorded and what was stored over. -/
def recordedVersions (w : Observed) :
    List (RotationState × Option Int × Option Int) × List Int :=
  (w.world.state.db.rotations.map fun r => (r.state, r.oldVersion, r.newVersion),
    w.stores.map fun s => s.before.version)

theorem row_of_recordedVersions {w : Observed} {state : RotationState} {old new : Option Int}
    {stored : List Int} (h : recordedVersions w = ([(state, old, new)], stored)) :
    (∃ row ∈ w.world.state.db.rotations, row.state = state ∧ row.oldVersion = old ∧ row.newVersion = new) ∧
      w.stores.map (fun s => s.before.version) = stored := by
  obtain ⟨hrows, hstores⟩ := Prod.mk.inj h
  have hmem : (state, old, new) ∈ w.world.state.db.rotations.map
      fun r => (r.state, r.oldVersion, r.newVersion) := by
    rw [hrows]
    exact List.mem_singleton_self _
  obtain ⟨row, hrow, hfields⟩ := List.mem_map.1 hmem
  simp only [Prod.mk.injEq] at hfields
  exact ⟨⟨row, hrow, hfields.1, hfields.2.1, hfields.2.2⟩, hstores⟩

/-- Another session replaces the value between the first read of a store and its replacement. -/
theorem replaced_between_reads :
    ∃ w, Steps (VaultStep revokeOnly plainCipher fun _ _ => True) firstVersion w ∧
      ¬w.MaterialRight plainCipher := by
  obtain ⟨w, hrun, hleft⟩ := Option.map_eq_some_iff.1 (by decide :
    (firstVersion.moves revokeOnly plainCipher (fun _ _ => true) manualAnswers newValue
      [.start (planOf "r1"), .act 0 8, .start (.approve "r1".toList), .act 1 10,
        .start (.advance "r1".toList (some "new".toList) false), .act 2 4, .replace "c1".toList,
        .act 2 5]).map recordedVersions = some ([(.replacementStored, some 1, some 3)], [2]))
  obtain ⟨⟨row, hrow, hstate, hold, hnew⟩, hstores⟩ := row_of_recordedVersions hleft
  refine ⟨w, Observed.steps_moves (fun _ _ _ => trivial) hrun, fun hright => ?_⟩
  obtain ⟨s, hs, -, hrec, -⟩ := hright row hrow (by rw [hstate]; rfl) (.inl (by rw [hnew]; rfl))
  have hbefore : s.before.version ∈ [2] := hstores ▸ List.mem_map_of_mem hs
  rw [List.mem_singleton] at hbefore
  have hsame := hold.symm.trans hrec.old
  rw [hbefore] at hsame
  cases hsame

/-- No other process has a store under way, and none was committed; nothing is taken up or swept. -/
def quiet (w : Observed) : Change → Bool
  | .action ⟨.swapState _ _ .rollingBack, _⟩ => false
  | .action _ => true
  | .store i _ credentialId input => w.stores.isEmpty && input.cutoff.isNone &&
      w.world.procs.zipIdx.all fun q => q.2 = i || !(q.1.knows course Course.start).storesInto credentialId
  | .replace credentialId =>
      w.world.procs.all fun q => !(q.knows course Course.start).storesInto credentialId
  | .sweep _ => false

theorem undisturbed_of_quiet (w : Observed) (c : Change) (h : quiet w c = true) : Undisturbed w c := by
  cases c with
  | action e =>
      obtain ⟨a, x⟩ := e
      cases a with
      | swapState id fromState toState =>
          cases toState with
          | rollingBack => cases h
          | _ => trivial
      | _ => trivial
  | store i p credentialId input =>
      simp only [quiet, Bool.and_eq_true, List.isEmpty_iff, Option.isNone_iff_eq_none, List.all_eq_true] at h
      obtain ⟨⟨hstores, hcutoff⟩, hothers⟩ := h
      refine ⟨?_, fun _ => ⟨?_, ?_⟩⟩
      · rintro ⟨j, q, hq, hj, -, hinto⟩
        have hother := hothers (q, j) (List.mem_zipIdx_iff_getElem?.2 hq)
        have hne : j ≠ i := fun h => hj (congrArg some h)
        simp [hne, hinto] at hother
      · rw [hstores]
        intro s hs
        cases hs
      · rw [hcutoff]
        intro cutoff hcutoff
        cases hcutoff
  | replace credentialId =>
      rintro ⟨j, q, hq, -, -, hinto⟩
      have hother := List.all_eq_true.1 h q (List.mem_of_getElem? hq)
      simp [hinto] at hother
  | sweep cutoff => cases h

/-- A manual rotation that stores its replacement, and a later replacement by another session. -/
theorem rollback_material_right_one :
    ∃ w, Steps (VaultStep revokeOnly plainCipher Undisturbed) firstVersion w ∧
      w.MaterialRight plainCipher ∧
      ∃ row ∈ w.world.state.db.rotations, row.state = .replacementStored ∧ row.oldVersion = some 1 ∧
        row.newVersion = some 2 := by
  obtain ⟨w, hrun, hleft⟩ := Option.map_eq_some_iff.1 (by decide :
    (firstVersion.moves revokeOnly plainCipher quiet manualAnswers newValue
      [.start (planOf "r1"), .act 0 8, .start (.approve "r1".toList), .act 1 10,
        .start (.advance "r1".toList (some "new".toList) false), .act 2 9,
        .replace "c1".toList]).map recordedVersions
      = some ([(.replacementStored, some 1, some 2)], [1]))
  have hsteps := Observed.steps_moves undisturbed_of_quiet hrun
  exact ⟨w, hsteps, rollback_material_right revokeOnly plainCipher _ _ hsteps,
    (row_of_recordedVersions hleft).1⟩

end Tethra.Rotations
