import Tethra.Rotation.Discipline

set_option autoImplicit false

/-! # One rotation in flight for a credential

An approval counts the rotations in flight and then swaps its own state, in two statements, and a rollback
takes up a failed rotation without a count. When neither is raced, a credential has at most one rotation
in flight in every state of every run. -/

namespace Tethra.Rotations

open Interleave Runs

/-! ## The store -/

/-- The rows have distinct ids. -/
def Db.WellFormed (db : Db) : Prop := (db.rotations.map Rotation.id).Nodup

theorem Db.mem_update {db : Db} {id : Str} {f : Rotation → Rotation} {r : Rotation}
    (h : r ∈ (db.update id f).rotations) :
    ∃ s ∈ db.rotations, (s.id = id ∧ r = f s) ∨ (s.id ≠ id ∧ r = s) := by
  obtain ⟨s, hs, rfl⟩ := List.mem_map.1 h
  refine ⟨s, hs, ?_⟩
  by_cases hid : s.id = id
  · exact .inl ⟨hid, if_pos hid⟩
  · exact .inr ⟨hid, if_neg hid⟩

/-- What an action makes of a row: it is new and planned, or it has the identity of a row that was
    there, and its state was swapped if it differs. -/
theorem Action.mem_effect {db : Db} {a : Action} {r : Rotation} (h : r ∈ (a.effect db).rotations) :
    (a = .insertRow r) ∨ ∃ s ∈ db.rotations, r.identity = s.identity ∧
      (r.state = s.state ∨ a = .swapState s.id s.state r.state) := by
  have hupdate : ∀ (id : Str) (f : Rotation → Rotation),
      (∀ s, (f s).identity = s.identity ∧ (f s).state = s.state) →
        r ∈ (db.update id f).rotations → ∃ s ∈ db.rotations, r.identity = s.identity ∧
          (r.state = s.state ∨ a = .swapState s.id s.state r.state) := by
    intro id f hf hr
    obtain ⟨s, hs, ⟨-, rfl⟩ | ⟨-, rfl⟩⟩ := Db.mem_update hr
    · exact ⟨s, hs, (hf s).1, .inl (hf s).2⟩
    · exact ⟨r, hs, rfl, .inl rfl⟩
  cases a with
  | swapState id fromState toState =>
      refine .inr ?_
      obtain ⟨s, hs, ⟨rfl, rfl⟩ | ⟨-, rfl⟩⟩ := Db.mem_update h
      · refine ⟨s, hs, ?_⟩
        by_cases hfrom : s.state = fromState
        · rw [if_pos hfrom, hfrom]
          exact ⟨rfl, .inr rfl⟩
        · rw [if_neg hfrom]
          exact ⟨rfl, .inl rfl⟩
      · exact ⟨r, hs, rfl, .inl rfl⟩
  | insertRow row =>
      rcases List.mem_append.1 h with h | h
      · exact .inr ⟨r, h, rfl, .inl rfl⟩
      · rw [List.mem_singleton.1 h]
        exact .inl rfl
  | setError id error =>
      exact .inr (hupdate id (fun r => { r with lastError := error }) (fun _ => ⟨rfl, rfl⟩) h)
  | setField id field =>
      exact .inr (hupdate id field.set (fun _ => by cases field <;> exact ⟨rfl, rfl⟩) h)
  | setVersions id old new =>
      exact .inr (hupdate id (fun r => { r with oldVersion := old, newVersion := some new })
        (fun _ => ⟨rfl, rfl⟩) h)
  | markValidated id =>
      exact .inr (hupdate id (fun r => { r with newValueValidated := true }) (fun _ => ⟨rfl, rfl⟩) h)
  | load reader id => exact .inr ⟨r, h, rfl, .inl rfl⟩
  | countActive credentialId id => exact .inr ⟨r, h, rfl, .inl rfl⟩
  | recordEvent id fromState toState detail => exact .inr ⟨r, h, rfl, .inl rfl⟩
  | recordNote id state note => exact .inr ⟨r, h, rfl, .inl rfl⟩
  | events id => exact .inr ⟨r, h, rfl, .inl rfl⟩
  | request q => exact .inr ⟨r, h, rfl, .inl rfl⟩

theorem Db.ids_update (db : Db) (id : Str) {f : Rotation → Rotation}
    (hf : ∀ r, (f r).id = r.id) :
    (db.update id f).rotations.map Rotation.id = db.rotations.map Rotation.id := by
  unfold Db.update
  rw [List.map_map]
  apply List.map_congr_left
  intro r _
  simp only [Function.comp_apply]
  split
  · exact hf r
  · rfl

/-- The ids stay distinct. -/
theorem Db.WellFormed.exec {db db' : Db} (hdb : db.WellFormed) {a : Action}
    {r : Except CoreError (Answer a)} (h : Exec db a r db') : db'.WellFormed := by
  cases r with
  | error e =>
      obtain rfl : db' = db := h
      exact hdb
  | ok x =>
      obtain ⟨hanswer, rfl⟩ := h
      have hupdate : ∀ (id : Str) {f : Rotation → Rotation}, (∀ r, (f r).id = r.id) →
          (db.update id f).WellFormed := by
        intro id f hf
        unfold WellFormed
        rw [Db.ids_update db id hf]
        exact hdb
      cases a with
      | swapState id fromState toState => exact hupdate id fun r => by split <;> rfl
      | insertRow row =>
          unfold WellFormed Action.effect
          rw [List.map_append]
          refine hdb.append (List.nodup_singleton _) ?_
          rw [List.map_singleton, List.disjoint_singleton]
          intro hmem
          obtain ⟨s, hs, hid⟩ := List.mem_map.1 hmem
          exact hanswer s hs hid
      | setError id error => exact hupdate id fun _ => rfl
      | setField id field => exact hupdate id fun _ => by cases field <;> rfl
      | setVersions id old new => exact hupdate id fun _ => rfl
      | markValidated id => exact hupdate id fun _ => rfl
      | load reader id => exact hdb
      | countActive credentialId id => exact hdb
      | recordEvent id fromState toState detail => exact hdb
      | recordNote id state note => exact hdb
      | events id => exact hdb
      | request q => exact hdb

/-! ## The race -/

/-- A credential has at most one rotation in flight. -/
def OneInFlight (db : Db) : Prop :=
  ∀ r ∈ db.rotations, ∀ s ∈ db.rotations, r.credentialId = s.credentialId →
    r.state.inFlight = true → s.state.inFlight = true → r = s

/-- The swap of an approval comes while the count it has read is the current one, and a rollback takes up
    a rotation that is not in flight only while no other one of the credential is. -/
def Unraced (w : World Db Answer CoreError Rotation) (p : Proc Answer CoreError Rotation)
    (e : Event Answer CoreError) : Prop :=
  match e.1 with
  | .swapState id fromState toState => ∀ row ∈ w.state.rotations, row.id = id →
      row.state = fromState →
        (fromState = .planned → toState = .approved →
          (p.knows discipline Knows.start).count = some (w.state.activeOthers row.credentialId id)) ∧
        (fromState.inFlight = false → toState = .rollingBack →
          w.state.activeOthers row.credentialId id = 0)
  | _ => True

theorem not_inFlight_of_activeOthers {db : Db} {credentialId id : Str}
    (h : db.activeOthers credentialId id = 0) {s : Rotation} (hs : s ∈ db.rotations)
    (hcred : s.credentialId = credentialId) (hid : s.id ≠ id) : s.state.inFlight = false := by
  unfold Db.activeOthers at h
  rw [List.countP_eq_zero] at h
  by_contra hflight
  exact h s hs (by simp [hcred, hid, Bool.eq_true_of_not_eq_false hflight])

/-- One action keeps the credential's rotations apart. -/
theorem OneInFlight.act {w : World Db Answer CoreError Rotation} {p : Proc Answer CoreError Rotation}
    {a : Action} {r : Except CoreError (Answer a)} {db' : Db} (hids : w.state.WellFormed)
    (h : OneInFlight w.state) (hallowed : (p.knows discipline Knows.start).allowed a)
    (hexec : Exec w.state a r db') (hcond : Unraced w p ⟨a, r⟩) : OneInFlight db' := by
  have hids' := hids.exec hexec
  cases r with
  | error e =>
      obtain rfl : db' = w.state := hexec
      exact h
  | ok x =>
      obtain ⟨-, rfl⟩ := hexec
      -- A row in flight was in flight before, or it was taken up and no other one is in flight.
      have hrow : ∀ r ∈ (a.effect w.state).rotations, r.state.inFlight = true →
          ∃ s ∈ w.state.rotations, r.identity = s.identity ∧ (s.state.inFlight = true ∨
            (∃ f t, a = .swapState s.id f t) ∧ w.state.activeOthers s.credentialId s.id = 0) := by
        intro r hr hflight
        rcases Action.mem_effect hr with rfl | ⟨s, hs, hsame, hstate⟩
        · have hplanned : r.state = .planned := hallowed
          rw [hplanned] at hflight
          cases hflight
        · refine ⟨s, hs, hsame, ?_⟩
          rcases hstate with hstate | rfl
          · exact .inl (hstate ▸ hflight)
          · cases hbefore : s.state.inFlight with
            | true => exact .inl rfl
            | false =>
                refine .inr ⟨⟨_, _, rfl⟩, ?_⟩
                obtain ⟨happrove, hback⟩ := hcond s hs rfl rfl
                rcases hallowed.inFlight hflight hbefore with ⟨hplanned, happroved, hcount⟩ | hrolling
                · have hcurrent := happrove hplanned happroved
                  rw [hcount] at hcurrent
                  exact (Option.some.inj hcurrent).symm
                · exact hback hbefore hrolling
      intro r₁ hr₁ r₂ hr₂ hcred hf₁ hf₂
      obtain ⟨s₁, hs₁, hsame₁, hb₁⟩ := hrow r₁ hr₁ hf₁
      obtain ⟨s₂, hs₂, hsame₂, hb₂⟩ := hrow r₂ hr₂ hf₂
      simp only [Rotation.identity, Prod.mk.injEq] at hsame₁ hsame₂
      have hcred' : s₁.credentialId = s₂.credentialId := by
        rw [← hsame₁.2.1, ← hsame₂.2.1, hcred]
      refine List.inj_on_of_nodup_map hids' hr₁ hr₂ ?_
      rw [hsame₁.1, hsame₂.1]
      by_contra hid
      rcases hb₁ with hb₁ | hb₁
      · rcases hb₂ with hb₂ | ⟨-, hb₂⟩
        · exact hid (congrArg Rotation.id (h s₁ hs₁ s₂ hs₂ hcred' hb₁ hb₂))
        · rw [not_inFlight_of_activeOthers hb₂ hs₁ hcred' hid] at hb₁
          cases hb₁
      · obtain ⟨⟨f₁, t₁, ha₁⟩, hb₁⟩ := hb₁
        rcases hb₂ with hb₂ | ⟨⟨f₂, t₂, ha₂⟩, -⟩
        · rw [not_inFlight_of_activeOthers hb₁ hs₂ hcred'.symm (Ne.symm hid)] at hb₂
          cases hb₂
        · -- one action swaps the state of one rotation
          rw [ha₁] at ha₂
          injection ha₂ with hsame
          exact hid hsame

/-- A store without rotations. -/
def Db.empty : Db := ⟨[], []⟩

/-- In every run whose approvals and rollbacks are not raced, each credential has at most one rotation
    that is none of planned, completed, rolled back and failed. -/
theorem one_in_flight_unraced (env : Env) {w : World Db Answer CoreError Rotation}
    (hrun : Steps (Step (system env) Unraced) (World.initial Db.empty) w) : OneInFlight w.state := by
  have hinv : w.state.WellFormed ∧ OneInFlight w.state := by
    refine System.invariant discipline Knows.start
      (I := fun w => w.state.WellFormed ∧ OneInFlight w.state) (obeys_program env) ?_ ?_ ?_ ?_ hrun
    · exact fun w op h => h
    · intro w i p a next r state h hp hprog hallowed hexec hcond
      exact ⟨h.1.exec hexec, h.2.act h.1 hallowed hexec hcond⟩
    · exact fun w i p h hp => h
    · exact ⟨List.nodup_nil, fun _ h => by cases h⟩
  exact hinv.2

/-! ## Two approvals -/

instance (w : World Db Answer CoreError Rotation) (p : Proc Answer CoreError Rotation)
    (e : Event Answer CoreError) : Decidable (Unraced w p e) :=
  match e with
  | ⟨.swapState id fromState toState, _⟩ =>
      inferInstanceAs (Decidable (∀ row ∈ w.state.rotations, row.id = id → row.state = fromState →
        (fromState = .planned → toState = .approved →
          (p.knows discipline Knows.start).count = some (w.state.activeOthers row.credentialId id)) ∧
        (fromState.inFlight = false → toState = .rollingBack →
          w.state.activeOthers row.credentialId id = 0)))
  | ⟨.load .., _⟩ | ⟨.countActive .., _⟩ | ⟨.recordEvent .., _⟩ | ⟨.recordNote .., _⟩
  | ⟨.events _, _⟩ | ⟨.setError .., _⟩ | ⟨.setField .., _⟩ | ⟨.setVersions .., _⟩
  | ⟨.markValidated _, _⟩ | ⟨.insertRow _, _⟩ | ⟨.request _, _⟩ => isTrue trivial

/-- What a schedule leaves of the rotations. -/
def leftStates (w : World Db Answer CoreError Rotation) : List (Str × Str × RotationState) :=
  w.state.rotations.map fun r => (r.id, r.credentialId, r.state)

/-- Two rotations of one credential are planned, and both approvals count before either swaps. -/
def racedApprovals : List (Turn Op) :=
  [.start (planOf "r1"), .act 0 8, .start (planOf "r2"), .act 1 8,
    .start (.approve "r1".toList), .start (.approve "r2".toList), .act 2 3, .act 3 10, .act 2 7]

theorem raced_approvals_both_in_flight :
    ∃ w, Steps (Step (system revokeOnly) fun _ _ _ => True) (World.initial Db.empty) w ∧
      ¬OneInFlight w.state := by
  obtain ⟨w, hrun, hleft⟩ := Option.map_eq_some_iff.1 (by decide :
    ((World.initial Db.empty).schedule (system revokeOnly) (fun _ _ _ => True)
      (Action.reply plainAnswers) racedApprovals).map leftStates
      = some [("r1".toList, "c1".toList, .approved), ("r2".toList, "c1".toList, .approved)])
  refine ⟨w, World.steps_schedule (fun _ _ _ h => exec_reply _ _ _ _ h) hrun, ?_⟩
  intro hone
  have hmem : ∀ {id : Str}, (id, "c1".toList, RotationState.approved) ∈ leftStates w →
      ∃ r ∈ w.state.rotations, r.id = id ∧ r.credentialId = "c1".toList ∧ r.state = .approved := by
    intro id h
    obtain ⟨r, hr, heq⟩ := List.mem_map.1 h
    simp only [Prod.mk.injEq] at heq
    exact ⟨r, hr, heq⟩
  obtain ⟨r, hr, hid, hcred, hstate⟩ := hmem (hleft ▸ by decide :
    ("r1".toList, "c1".toList, RotationState.approved) ∈ leftStates w)
  obtain ⟨s, hs, hid', hcred', hstate'⟩ := hmem (hleft ▸ by decide :
    ("r2".toList, "c1".toList, RotationState.approved) ∈ leftStates w)
  have heq := hone r hr s hs (by rw [hcred, hcred']) (by rw [hstate]; rfl) (by rw [hstate']; rfl)
  rw [heq, hid'] at hid
  revert hid
  decide

/-- One rotation is approved, the other one waits. -/
theorem one_in_flight_unraced_one :
    ∃ w, Steps (Step (system revokeOnly) Unraced) (World.initial Db.empty) w ∧ OneInFlight w.state ∧
      leftStates w = [("r1".toList, "c1".toList, .approved), ("r2".toList, "c1".toList, .planned)] := by
  obtain ⟨w, hrun, hleft⟩ := Option.map_eq_some_iff.1 (by decide :
    ((World.initial Db.empty).schedule (system revokeOnly) Unraced (Action.reply plainAnswers)
      [.start (planOf "r1"), .act 0 8, .start (planOf "r2"), .act 1 8, .start (.approve "r1".toList),
        .act 2 10, .start (.approve "r2".toList), .act 3 3]).map leftStates
      = some [("r1".toList, "c1".toList, .approved), ("r2".toList, "c1".toList, .planned)])
  have hsteps : Steps (Step (system revokeOnly) Unraced) (World.initial Db.empty) w :=
    World.steps_schedule (fun _ _ _ h => exec_reply _ _ _ _ h) hrun
  exact ⟨w, hsteps, one_in_flight_unraced revokeOnly hsteps, hleft⟩

end Tethra.Rotations
