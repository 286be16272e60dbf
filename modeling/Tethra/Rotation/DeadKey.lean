import Tethra.Rotation.OneActive

set_option autoImplicit false

/-! # A rollback and a key that may be gone

A rollback refuses once the log holds the note of an attempted revocation. It reads the log before its
own swap, and an advance records the note without looking at the state again. When neither is overtaken
by the other, no rotation is rolling back or rolled back after the revocation of its old key was sent. -/

namespace Tethra.Rotations

open Interleave Runs

/-- A revocation of the old key was sent for the rotation. -/
def RevokeSent (trace : List (Event Answer CoreError)) (id key : Str) : Prop :=
  ∃ r, (⟨.request (.revokeOldKey id key), r⟩ : Event Answer CoreError) ∈ trace

/-- The log holds the note of an attempt. -/
def Db.attempted (db : Db) (id key : Str) : Prop :=
  ∃ e ∈ db.events, e.rotationId = id ∧ e.detail = revokeAttemptMarker key

def RotationState.backward : RotationState → Bool
  | .rollingBack | .rolledBack => true
  | _ => false

/-- The rotation's old key is deleted by a revocation. -/
def Rotation.deletes (row : Rotation) (key : Str) : Prop :=
  row.oldProviderKeyId = some key ∧ revokeIsReversible row.provider = false

/-- A rollback swaps while the log has no attempt that it has not read, and an attempt is noted while the
    rotation is not going backward. -/
def InOrder (w : World Db Answer CoreError Rotation) (p : Proc Answer CoreError Rotation)
    (e : Event Answer CoreError) : Prop :=
  match e.1 with
  | .swapState id _ .rollingBack => ∀ log, (p.knows discipline Knows.start).log = some (id, log) →
      ∀ e ∈ w.state.events, e.rotationId = id →
        (∃ key, e.detail = revokeAttemptMarker key) → e ∈ log
  | .recordEvent id _ _ detail | .recordNote id _ detail =>
      ∀ row ∈ w.state.rotations, row.id = id → ∀ key, detail = revokeAttemptMarker key →
        row.state.backward = false
  | _ => True

/-! ## What processes have read -/

/-- The rows that processes decide on are rows of the store, as far as no statement changes them. -/
def KnownRows (w : World Db Answer CoreError Rotation) : Prop :=
  ∀ p ∈ w.procs, ∀ row, (p.knows discipline Knows.start).row = some row →
    ∃ s ∈ w.state.rotations, s.identity = row.identity

/-- What a process has noted is in the log. -/
def NotedEvents (w : World Db Answer CoreError Rotation) : Prop :=
  ∀ p ∈ w.procs, ∀ id note, (p.knows discipline Knows.start).noted = some (id, note) →
    ∃ e ∈ w.state.events, e.rotationId = id ∧ e.detail = note

theorem Action.identity_effect (db : Db) (a : Action) {s : Rotation} (hs : s ∈ db.rotations) :
    ∃ r ∈ (a.effect db).rotations, r.identity = s.identity := by
  have hupdate : ∀ (id : Str) (f : Rotation → Rotation), (∀ r, (f r).identity = r.identity) →
      ∃ r ∈ (db.update id f).rotations, r.identity = s.identity := by
    intro id f hf
    refine ⟨_, List.mem_map_of_mem hs, ?_⟩
    split
    · exact hf s
    · rfl
  cases a with
  | swapState id fromState toState => exact hupdate id _ fun r => by split <;> rfl
  | insertRow row => exact ⟨s, List.mem_append_left _ hs, rfl⟩
  | setError id error => exact hupdate id (fun r => { r with lastError := error }) fun _ => rfl
  | setField id field => exact hupdate id field.set fun _ => by cases field <;> rfl
  | setVersions id old new =>
      exact hupdate id (fun r => { r with oldVersion := old, newVersion := some new }) fun _ => rfl
  | markValidated id =>
      exact hupdate id (fun r => { r with newValueValidated := true }) fun _ => rfl
  | load reader id => exact ⟨s, hs, rfl⟩
  | countActive credentialId id => exact ⟨s, hs, rfl⟩
  | recordEvent id fromState toState detail => exact ⟨s, hs, rfl⟩
  | recordNote id state note => exact ⟨s, hs, rfl⟩
  | events id => exact ⟨s, hs, rfl⟩
  | request q => exact ⟨s, hs, rfl⟩

/-- The log only grows. -/
theorem Action.events_subset {db : Db} (a : Action) {e : RotationEvent} (h : e ∈ db.events) :
    e ∈ (a.effect db).events := by
  cases a with
  | recordEvent id fromState toState detail => exact List.mem_append_left _ h
  | recordNote id state note => exact List.mem_append_left _ h
  | _ => exact h

/-- A new event is the one that the action records, and the rows are as they were. -/
theorem Action.mem_events {db : Db} {a : Action} {e : RotationEvent}
    (h : e ∈ (a.effect db).events) : e ∈ db.events ∨ (a.effect db).rotations = db.rotations ∧
      ((∃ fromState toState, a = .recordEvent e.rotationId fromState toState e.detail) ∨
        ∃ state, a = .recordNote e.rotationId state e.detail) := by
  cases a with
  | recordEvent id fromState toState detail =>
      rcases List.mem_append.1 h with h | h
      · exact .inl h
      · rw [List.mem_singleton.1 h]
        exact .inr ⟨rfl, .inl ⟨fromState, toState, rfl⟩⟩
  | recordNote id state note =>
      rcases List.mem_append.1 h with h | h
      · exact .inl h
      · rw [List.mem_singleton.1 h]
        exact .inr ⟨rfl, .inr ⟨state, rfl⟩⟩
  | _ => exact .inl h

/-- The row that is decided on is one that was loaded. -/
theorem known_next {k : Knows} {a : Action} {r : Except CoreError (Answer a)} {db db' : Db}
    (hexec : Exec db a r db')
    (hk : ∀ row, k.row = some row → ∃ s ∈ db.rotations, s.identity = row.identity) :
    ∀ row, (k.next a r).row = some row → ∃ s ∈ db.rotations, s.identity = row.identity := by
  have hfound : ∀ {id : Str} {row : Rotation}, db.find id = some row →
      ∃ s ∈ db.rotations, s.identity = row.identity :=
    fun h => ⟨_, List.mem_of_find?_eq_some h, rfl⟩
  intro row hrow
  cases a with
  | load reader id =>
      cases r with
      | error e => cases reader <;> exact hk row hrow
      | ok x =>
          have hx : x = db.find id := hexec.1
          cases reader with
          | advance =>
              cases x with
              | none => exact hk row hrow
              | some loaded =>
                  obtain rfl := Option.some.inj hrow
                  exact hfound hx.symm
          | operation => exact hfound (hx.symm.trans hrow)
          | helper => exact hk row hrow
  | request q =>
      cases q <;> cases r <;> first | exact hk row hrow | skip
      rename_i found
      cases found <;> exact hk row hrow
  | setField id field => cases field <;> cases r <;> exact hk row hrow
  | _ => cases r <;> exact hk row hrow

/-- What is newly noted is newly recorded. -/
theorem noted_next {k : Knows} {a : Action} {r : Except CoreError (Answer a)} {db db' : Db}
    (hexec : Exec db a r db') {id note : Str}
    (hk : k.noted = some (id, note) → ∃ e ∈ db.events, e.rotationId = id ∧ e.detail = note)
    (h : (k.next a r).noted = some (id, note)) :
    ∃ e ∈ db'.events, e.rotationId = id ∧ e.detail = note := by
  have hgrow : k.noted = some (id, note) → ∃ e ∈ db'.events, e.rotationId = id ∧ e.detail = note := by
    intro h
    obtain ⟨e, he, hsame⟩ := hk h
    cases r with
    | error err =>
        obtain rfl : db' = db := hexec
        exact ⟨e, he, hsame⟩
    | ok x =>
        obtain ⟨-, rfl⟩ := hexec
        exact ⟨e, a.events_subset he, hsame⟩
  cases a with
  | recordNote id' state note' =>
      cases r with
      | error e => exact hgrow h
      | ok x =>
          obtain ⟨-, rfl⟩ := hexec
          obtain ⟨rfl, rfl⟩ := Prod.mk.inj (Option.some.inj h)
          exact ⟨_, List.mem_append_right _ (List.mem_singleton_self _), rfl, rfl⟩
  | load reader id' =>
      cases reader with
      | advance =>
          cases r with
          | error e => exact hgrow h
          | ok x => cases x <;> exact hgrow h
      | operation => cases r <;> exact hgrow h
      | helper => cases r <;> exact hgrow h
  | request q =>
      cases q <;> cases r <;> first | exact hgrow h | skip
      rename_i found
      cases found <;> exact hgrow h
  | setField id' field => cases field <;> cases r <;> exact hgrow h
  | _ => cases r <;> exact hgrow h

/-! ## The invariant -/

/-- A rotation whose old key is deleted by a revocation does not go backward after an attempt. -/
def Forward (db : Db) : Prop :=
  ∀ row ∈ db.rotations, ∀ key, row.deletes key → db.attempted row.id key → row.state.backward = false

/-- What holds of the store, the processes and what was sent. -/
structure Safe (w : World Db Answer CoreError Rotation) : Prop where
  wellFormed : w.state.WellFormed
  known : KnownRows w
  noted : NotedEvents w
  sent : ∀ id key, RevokeSent w.trace id key → w.state.attempted id key
  forward : Forward w.state

/-- One action keeps a rotation from going backward after an attempt. -/
theorem Forward.act {w : World Db Answer CoreError Rotation} {p : Proc Answer CoreError Rotation}
    {a : Action} {x : Answer a} (hw : Safe w) (hp : p ∈ w.procs)
    (hallowed : (p.knows discipline Knows.start).allowed a) (hcond : InOrder w p ⟨a, .ok x⟩) :
    Forward (a.effect w.state) := by
  intro row hrow key hdeletes hattempted
  obtain ⟨e, he, hid, hdetail⟩ := hattempted
  rcases Action.mem_events he with he | ⟨hrows, hnew⟩
  · rcases Action.mem_effect hrow with rfl | ⟨s, hs, hsame, hstate⟩
    · have hplanned : row.state = .planned := hallowed
      rw [hplanned]
      rfl
    · simp only [Rotation.identity, Prod.mk.injEq] at hsame
      have hdeletes' : s.deletes key := by
        rw [Rotation.deletes, ← hsame.2.2.2, ← hsame.2.2.1]
        exact hdeletes
      have hbefore := hw.forward s hs key hdeletes' ⟨e, he, hid.trans hsame.1, hdetail⟩
      rcases hstate with hstate | rfl
      · rw [hstate]
        exact hbefore
      · by_contra hback
        cases hto : row.state with
        | rolledBack =>
            rw [hallowed.rolledBack hto] at hbefore
            cases hbefore
        | rollingBack =>
            obtain ⟨decided, hk, hdid, -, hsafe⟩ := hallowed.rollingBack hto
            obtain ⟨t, ht, htsame⟩ := hw.known p hp decided hk
            simp only [Rotation.identity, Prod.mk.injEq] at htsame
            obtain rfl : t = s := List.inj_on_of_nodup_map hw.wellFormed ht hs (htsame.1.trans hdid)
            rcases hsafe with (hnone | hreversible) | ⟨log, hlog, hunattempted⟩
            · rw [← htsame.2.2.2, hdeletes'.1] at hnone
              cases hnone
            · rw [← htsame.2.2.1, hdeletes'.2] at hreversible
              cases hreversible
            · rw [hto] at hcond
              have hread := hcond log hlog e he (hid.trans hsame.1) ⟨key, hdetail⟩
              exact hunattempted key (htsame.2.2.2 ▸ hdeletes'.1) (htsame.2.2.1 ▸ hdeletes'.2) e hread
                hdetail
        | _ =>
            rw [hto] at hback
            exact hback rfl
  · -- The attempt is noted by this action, and the rows stay.
    rw [hrows] at hrow
    rcases hnew with ⟨f, t, rfl⟩ | ⟨state, rfl⟩
    · exact hcond row hrow hid.symm key hdetail
    · exact hcond row hrow hid.symm key hdetail

/-- One action of a process keeps all of it. -/
theorem Safe.act {w : World Db Answer CoreError Rotation} {i : Nat}
    {p : Proc Answer CoreError Rotation} {a : Action} {next : Prog Rotation}
    {r : Except CoreError (Answer a)} {db' : Db} (hw : Safe w) (hp : w.procs[i]? = some p)
    (hallowed : (p.knows discipline Knows.start).allowed a) (hexec : Exec w.state a r db')
    (hcond : InOrder w p ⟨a, r⟩) : Safe (w.perform db' i (p.perform next ⟨a, r⟩) ⟨a, r⟩) := by
  have hmem : p ∈ w.procs := List.mem_of_getElem? hp
  have hrows : ∀ s ∈ w.state.rotations, ∃ t ∈ db'.rotations, t.identity = s.identity := by
    intro s hs
    cases r with
    | error e =>
        obtain rfl : db' = w.state := hexec
        exact ⟨s, hs, rfl⟩
    | ok x =>
        obtain ⟨-, rfl⟩ := hexec
        exact a.identity_effect _ hs
  have hevents : ∀ e ∈ w.state.events, e ∈ db'.events := by
    intro e he
    cases r with
    | error err =>
        obtain rfl : db' = w.state := hexec
        exact he
    | ok x =>
        obtain ⟨-, rfl⟩ := hexec
        exact a.events_subset he
  refine ⟨hw.wellFormed.exec hexec, ?_, ?_, ?_, ?_⟩
  · intro q hq row hrow
    have hold : ∃ s ∈ w.state.rotations, s.identity = row.identity := by
      rcases List.mem_or_eq_of_mem_set hq with hq | rfl
      · exact hw.known q hq row hrow
      · rw [Proc.knows_perform] at hrow
        exact known_next hexec (hw.known p hmem) row hrow
    obtain ⟨s, hs, hsame⟩ := hold
    obtain ⟨t, ht, htsame⟩ := hrows s hs
    exact ⟨t, ht, htsame.trans hsame⟩
  · intro q hq id note hnoted
    rcases List.mem_or_eq_of_mem_set hq with hq | rfl
    · obtain ⟨e, he, hsame⟩ := hw.noted q hq id note hnoted
      exact ⟨e, hevents e he, hsame⟩
    · rw [Proc.knows_perform] at hnoted
      exact noted_next hexec (hw.noted p hmem id note) hnoted
  · rintro id key ⟨r', hsent⟩
    have hattempted : w.state.attempted id key := by
      rcases List.mem_append.1 hsent with hsent | hsent
      · exact hw.sent id key ⟨r', hsent⟩
      · have ha := List.mem_singleton.1 hsent
        injection ha with ha _
        subst ha
        exact hw.noted p hmem id _ hallowed
    obtain ⟨e, he, hsame⟩ := hattempted
    exact ⟨e, hevents e he, hsame⟩
  · cases r with
    | error e =>
        obtain rfl : db' = w.state := hexec
        exact hw.forward
    | ok x =>
        obtain ⟨-, rfl⟩ := hexec
        exact Forward.act hw hmem hallowed hcond

/-- In every run in which rollbacks and attempts are in order, a rotation whose old key is deleted by a
    revocation is not rolling back or rolled back once the revocation was sent. -/
theorem no_rollback_after_revoke (env : Env) {w : World Db Answer CoreError Rotation}
    (hrun : Steps (Step (system env) InOrder) (World.initial Db.empty) w) {row : Rotation}
    (hrow : row ∈ w.state.rotations) {key : Str} (hdeletes : row.deletes key)
    (hsent : RevokeSent w.trace row.id key) :
    row.state ≠ .rollingBack ∧ row.state ≠ .rolledBack := by
  have hsafe : Safe w := by
    refine System.invariant discipline Knows.start (obeys_program env) ?_ ?_ ?_ ?_ hrun
    · intro w op h
      refine ⟨h.wellFormed, forall_procs_start h.known ?_, forall_procs_start h.noted ?_, h.sent,
        h.forward⟩
      · intro row hrow
        cases hrow
      · intro id note hnoted
        cases hnoted
    · intro w i p a next r state h hp hprog hallowed hexec hcond
      exact h.act hp hallowed hexec hcond
    · intro w i p h hp
      have hmem := List.mem_of_getElem? hp
      exact ⟨h.wellFormed, forall_procs_set h.known (h.known p hmem),
        forall_procs_set h.noted (h.noted p hmem), h.sent, h.forward⟩
    · refine ⟨List.nodup_nil, fun _ h => (by cases h), fun _ h => (by cases h), ?_,
        fun _ h => (by cases h)⟩
      rintro id key ⟨_, h⟩
      cases h
  have hforward := hsafe.forward row hrow key hdeletes (hsafe.sent _ _ hsent)
  constructor
  · intro hstate
    rw [hstate] at hforward
    cases hforward
  · intro hstate
    rw [hstate] at hforward
    cases hforward

/-! ## A rollback that has read the log before the attempt -/

/-- Whether the revocation of a key was sent for a rotation. -/
def sentTo (id key : Str) (e : Event Answer CoreError) : Bool :=
  match e.1 with
  | .request (.revokeOldKey id' key') => id' = id && key' = key
  | _ => false

theorem revokeSent_of_any {trace : List (Event Answer CoreError)} {id key : Str}
    (h : trace.any (sentTo id key) = true) : RevokeSent trace id key := by
  obtain ⟨⟨a, r⟩, he, hsent⟩ := List.any_eq_true.1 h
  unfold sentTo at hsent
  split at hsent
  · rename_i id' key' heq
    obtain ⟨hid, hkey⟩ := Bool.and_eq_true_iff.1 hsent
    dsimp only at heq
    subst heq
    obtain rfl := of_decide_eq_true hid
    obtain rfl := of_decide_eq_true hkey
    exact ⟨r, he⟩
  · cases hsent

/-- What a statement leaves of a row is seen in its state and identity. -/
def rowsOf (w : World Db Answer CoreError Rotation) :
    List (Str × RotationState × Option Str × Str) :=
  w.state.rotations.map fun r => (r.id, r.state, r.oldProviderKeyId, r.provider)

/-- The only rotation is in the state, and the revocation of its old key was sent. -/
def sentIn (state : RotationState) (w : World Db Answer CoreError Rotation) : Bool :=
  decide (rowsOf w = [("r1".toList, state, some "old-key".toList, "openai".toList)]) &&
    w.trace.any (sentTo "r1".toList "old-key".toList)

theorem row_of_sentIn {state : RotationState} {w : World Db Answer CoreError Rotation}
    (h : sentIn state w = true) : ∃ row ∈ w.state.rotations, row.deletes "old-key".toList ∧
      RevokeSent w.trace row.id "old-key".toList ∧ row.state = state := by
  obtain ⟨hrows, hsent⟩ := Bool.and_eq_true_iff.1 h
  have hmem : ("r1".toList, state, some "old-key".toList, "openai".toList) ∈ rowsOf w := by
    rw [of_decide_eq_true hrows]
    exact List.mem_singleton_self _
  obtain ⟨row, hrow, hfields⟩ := List.mem_map.1 hmem
  simp only [Prod.mk.injEq] at hfields
  obtain ⟨hid, hstate, hkey, hprovider⟩ := hfields
  refine ⟨row, hrow, ⟨hkey, ?_⟩, ?_, hstate⟩
  · rw [hprovider]
    decide
  · rw [hid]
    exact revokeSent_of_any hsent

/-- A rotation is advanced up to its revocation; a rollback reads the log, the revocation is noted and
    sent, and the rollback goes on. -/
def rollbackAroundRevoke : List (Turn Op) :=
  [.start (planOf "r1"), .act 0 8, .start (.approve "r1".toList), .act 1 10,
    .start (.advance "r1".toList none false), .act 2 45,
    .start (.rollback "r1".toList false), .act 3 5, .act 2 6, .act 3 6]

theorem rolled_back_after_revoke :
    ∃ w, Steps (Step (system revokeOnly) fun _ _ _ => True) (World.initial Db.empty) w ∧
      ∃ row ∈ w.state.rotations, row.deletes "old-key".toList ∧
        RevokeSent w.trace row.id "old-key".toList ∧ row.state = .rolledBack := by
  obtain ⟨w, hrun, hleft⟩ := Option.map_eq_some_iff.1 (by decide :
    ((World.initial Db.empty).schedule (system revokeOnly) (fun _ _ _ => True)
      (Action.reply plainAnswers) rollbackAroundRevoke).map (sentIn .rolledBack) = some true)
  exact ⟨w, World.steps_schedule (fun _ _ _ h => exec_reply _ _ _ _ h) hrun, row_of_sentIn hleft⟩

/-- The state that an action swaps to. -/
def Action.target : Action → Option RotationState
  | .swapState _ _ toState => some toState
  | _ => none

/-- No rotation goes backward, before the action and by it. -/
def goesForward (w : World Db Answer CoreError Rotation) (_ : Proc Answer CoreError Rotation)
    (e : Event Answer CoreError) : Prop :=
  (w.state.rotations.all fun r => !r.state.backward) = true ∧ e.1.target ≠ some .rollingBack

instance (w : World Db Answer CoreError Rotation) (p : Proc Answer CoreError Rotation)
    (e : Event Answer CoreError) : Decidable (goesForward w p e) :=
  inferInstanceAs (Decidable (_ ∧ _))

theorem inOrder_of_goesForward (w : World Db Answer CoreError Rotation)
    (p : Proc Answer CoreError Rotation) (e : Event Answer CoreError) (h : goesForward w p e) :
    InOrder w p e := by
  obtain ⟨hrows, htarget⟩ := h
  have hforward : ∀ row ∈ w.state.rotations, row.state.backward = false := by
    intro row hrow
    simpa using List.all_eq_true.1 hrows row hrow
  unfold InOrder
  split
  · rename_i heq
    rw [heq] at htarget
    exact absurd rfl htarget
  · exact fun row hrow _ _ _ => hforward row hrow
  · exact fun row hrow _ _ _ => hforward row hrow
  · trivial

/-- A rotation that is advanced up to its revocation goes forward. -/
theorem no_rollback_after_revoke_one :
    ∃ w, Steps (Step (system revokeOnly) InOrder) (World.initial Db.empty) w ∧
      ∃ row ∈ w.state.rotations, RevokeSent w.trace row.id "old-key".toList ∧
        row.state ≠ .rollingBack ∧ row.state ≠ .rolledBack := by
  obtain ⟨w, hrun, hleft⟩ := Option.map_eq_some_iff.1 (by decide :
    ((World.initial Db.empty).schedule (system revokeOnly) goesForward (Action.reply plainAnswers)
      [.start (planOf "r1"), .act 0 8, .start (.approve "r1".toList), .act 1 10,
        .start (.advance "r1".toList none false), .act 2 51]).map (sentIn .oldDisabled) = some true)
  have hsteps : Steps (Step (system revokeOnly) InOrder) (World.initial Db.empty) w :=
    Relation.ReflTransGen.mono (fun _ _ hstep => hstep.mono inOrder_of_goesForward) _ _
      (World.steps_schedule (fun _ _ _ h => exec_reply _ _ _ _ h) hrun)
  obtain ⟨row, hrow, hdeletes, hsent, -⟩ := row_of_sentIn hleft
  exact ⟨w, hsteps, row, hrow, hsent,
    no_rollback_after_revoke revokeOnly hsteps hrow hdeletes hsent⟩

end Tethra.Rotations
