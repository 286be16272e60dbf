import Tethra.Vault.AccessGrant

set_option autoImplicit false

/-! # Launches under a grant (`apps/cli/src/run_cmd.rs`, `core/src/inject.rs`)

`run` builds an injection, spawns the child and records its process id; `access_grant_end` revokes the grant
and lists the running sessions that have one. A child is in the list when no launch of the grant stands
between its consumption and its record at the listing (`listed_when_settled`). -/

namespace Tethra.GrantLaunch

open Interleave Runs AccessGrants

/-- Statements on the vault, and what a launch and its child do. -/
inductive Action where
  | vault (a : AccessGrants.Action)
  | spawn (grantId sessionId : Str)
  | setSessionPid (sessionId : Str) (pid : Int) (grantId : Str)
  /-- The child has exited. -/
  | wait (pid : Int)
  | endSession (sessionId : Str)
  /-- A child exits. -/
  | exit (pid : Int)
  /-- `access_grant_end` returns. -/
  | returned (id : Str) (running : List (Str × Int))

abbrev Answer : Action → Type
  | .vault a => AccessGrants.Answer a
  | .spawn _ _ => Int
  | .setSessionPid _ _ _ => Unit
  | .wait _ => Unit
  | .endSession _ => Unit
  | .exit _ => Unit
  | .returned _ _ => Unit

abbrev Prog (β : Type) := Interleave.Prog Answer CoreError β

abbrev call (a : Action) : Prog (Answer a) := Interleave.Prog.call a

variable {β : Type}

/-- A program of the vault. -/
def lift : AccessGrants.Prog β → Prog β
  | .ret b => .ret b
  | .throw e => .throw e
  | .act a next => .act (.vault a) fun r => lift (next r)

/-- What `run` does with the child; the record of its process id is best-effort. -/
def supervise (grantId sessionId : Str) (pid : Int) : Prog Unit := do
  let _ ← (call (.setSessionPid sessionId pid grantId)).attempt
  let _ ← (call (.wait pid)).attempt
  let _ ← (call (.endSession sessionId)).attempt
  return

def launch (formatMicros : Int → Str) (grantId commandLabel : Str) : Prog Unit := do
  let injection ← lift (buildInjectionWithGrant formatMicros grantId commandLabel)
  match ← (call (.spawn grantId injection.sessionId)).attempt with
  | .ok pid => supervise grantId injection.sessionId pid
  | .error e => do
      let _ ← (call (.endSession injection.sessionId)).attempt
      .throw e

def endGrant (id : Str) : Prog Unit := do
  let (_, running) ← lift (accessGrantEnd id)
  call (.returned id running)

inductive Op where
  | run (grantId commandLabel : Str)
  | endGrant (id : Str)
  | exit (pid : Int)
  | setClock (t : Clock.Timestamp)

def program (formatMicros : Int → Str) : Op → Prog Unit
  | .run grantId commandLabel => launch formatMicros grantId commandLabel
  | .endGrant id => endGrant id
  | .exit pid => call (.exit pid)
  | .setClock t => call (.vault (.setClock t))

/-! ## The vault and the children -/

/-- A row of `process_sessions`. -/
structure Session where
  id : Str
  grantId : Option Str
  pid : Option Int
  ended : Bool
  deriving DecidableEq, Repr

/-- A child that runs, with the grant and the session of its launch. -/
structure Child where
  pid : Int
  grantId : Str
  sessionId : Str
  deriving DecidableEq, Repr

/-- A return of `access_grant_end`: its list, and the children of the grant that run then. -/
structure Ended where
  listed : List (Str × Int)
  running : List Child
  deriving DecidableEq, Repr

structure State where
  vault : AccessGrants.State
  sessions : List Session
  children : List Child
  ended : List Ended

/-- `UPDATE process_sessions SET … WHERE id = …`. -/
def State.update (s : State) (id : Str) (f : Session → Session) : State :=
  { s with sessions := s.sessions.map fun row => if row.id = id then f row else row }

/-- `running_sessions_for_grant`. -/
def runningSessions (sessions : List Session) (id : Str) : List (Str × Int) :=
  sessions.filterMap fun row =>
    if row.grantId = some id ∧ row.ended = false then row.pid.map fun pid => (row.id, pid) else none

/-- The replies that an action can have. -/
def Replies (s : State) : (a : Action) → Except CoreError (Answer a) → Prop
  | .vault (.startSession p c v), .ok id =>
      AccessGrants.Replies s.vault (.startSession p c v) (.ok id) ∧ ∀ row ∈ s.sessions, row.id ≠ id
  | .vault (.runningSessions id), .ok running => running = runningSessions s.sessions id
  | .vault a, r => AccessGrants.Replies s.vault a r
  | .wait pid, .ok _ => ∀ c ∈ s.children, c.pid ≠ pid
  | .exit _, .error _ => False
  | .returned _ _, .error _ => False
  | _, _ => True

/-- The state behind a reply; what fails changes nothing. -/
def effect (s : State) : (a : Action) → Except CoreError (Answer a) → State
  | .vault (.startSession _ _ _), .ok id =>
      { s with sessions := s.sessions ++ [⟨id, none, none, false⟩] }
  | .vault (.setSessionGrant id grantId), .ok _ => s.update id fun row => { row with grantId := some grantId }
  | .vault a, r => { s with vault := AccessGrants.effect s.vault a r }
  | .spawn grantId sessionId, .ok pid => { s with children := s.children ++ [⟨pid, grantId, sessionId⟩] }
  | .setSessionPid id pid grantId, .ok _ =>
      s.update id fun row => { row with pid := some pid, grantId := some grantId }
  | .endSession id, .ok _ => s.update id fun row => { row with ended := true }
  | .exit pid, .ok _ => { s with children := s.children.filter (·.pid ≠ pid) }
  | .returned id running, .ok _ =>
      { s with ended := s.ended ++ [⟨running, s.children.filter (·.grantId = id)⟩] }
  | _, _ => s

def Exec (s : State) (a : Action) (r : Except CoreError (Answer a)) (s' : State) : Prop :=
  Replies s a r ∧ s' = effect s a r

def system (formatMicros : Int → Str) : System State Op Answer CoreError Unit where
  program := program formatMicros
  exec := Exec

/-! ## The phases of a process -/

inductive Phase where
  | idle
  /-- The grant was seen to be revoked. -/
  | revoked (id : Str)
  | listed (id : Str) (sessions : List (Str × Int))
  /-- A launch was consumed. -/
  | consumed (grantId : Str)
  | started (grantId sessionId : Str)
  /-- The child was spawned; `recorded`: its process id is in the session. -/
  | running (grantId sessionId : Str) (pid : Int) (recorded : Bool)
  /-- The session was ended behind a wait that failed; the child may still run. -/
  | lost (grantId sessionId : Str) (pid : Int)
  /-- The child has exited. -/
  | exited (sessionId : Str)
  | over
  deriving DecidableEq, Repr

/-- A launch that fails before its child is over. -/
def Phase.failed : Phase → Phase
  | .consumed _ | .started _ _ => .over
  | ph => ph

def Phase.next (ph : Phase) : (a : Action) → Except CoreError (Answer a) → Phase
  | .vault (.getGrant id), .ok (some grant) =>
      match ph with
      | .idle => if grant.revokedAt.isSome then .revoked id else .idle
      | _ => ph
  | .vault (.getGrant _), .ok none => ph.failed
  | .vault (.setRevoked id _), .ok _ => .revoked id
  | .vault (.runningSessions id), .ok sessions => .listed id sessions
  | .vault (.consumeLaunch id _), .ok true => .consumed id
  | .vault (.startSession _ _ _), .ok sessionId =>
      match ph with
      | .consumed grantId => .started grantId sessionId
      | _ => ph
  | .vault _, .ok _ => ph
  | .vault _, .error _ => ph.failed
  | .spawn grantId sessionId, .ok pid => .running grantId sessionId pid false
  | .spawn _ _, .error _ => ph
  | .setSessionPid sessionId pid grantId, .ok _ => .running grantId sessionId pid true
  | .setSessionPid _ _ _, .error _ => ph
  | .wait _, .ok _ =>
      match ph with
      | .running _ sessionId _ _ => .exited sessionId
      | _ => ph
  | .wait _, .error _ => ph
  | .endSession _, _ =>
      match ph with
      | .running grantId sessionId pid _ => .lost grantId sessionId pid
      | _ => .over
  | .exit _, _ => ph
  | .returned _ _, _ => ph

def Phase.Allowed (ph : Phase) : Action → Prop
  | .vault (.consumeLaunch _ _) => ph = .idle ∨ ∃ id, ph = .revoked id
  | .vault (.startSession _ _ _) => ∃ grantId, ph = .consumed grantId
  | .vault (.setSessionGrant sessionId grantId) => ph = .started grantId sessionId
  | .vault (.setRevoked _ _) => ph = .idle
  | .vault (.runningSessions id) => ph = .revoked id
  | .vault _ => True
  | .spawn grantId sessionId => ph = .started grantId sessionId
  | .setSessionPid sessionId pid grantId => ph = .running grantId sessionId pid false
  | .wait pid => ∃ grantId sessionId recorded, ph = .running grantId sessionId pid recorded
  | .endSession sessionId => (∃ grantId, ph = .started grantId sessionId) ∨
      (∃ grantId pid recorded, ph = .running grantId sessionId pid recorded) ∨ ph = .exited sessionId
  | .exit _ => True
  | .returned id sessions => ph = .listed id sessions

def discipline : Discipline Answer CoreError Phase where
  allowed := Phase.Allowed
  next := Phase.next

/-- The discipline of the statements on the vault. -/
def vaultDiscipline : Discipline AccessGrants.Answer CoreError Phase where
  allowed ph a := ph.Allowed (.vault a)
  next ph a r := ph.next (.vault a) r

theorem obeys_lift {p : AccessGrants.Prog β} {ph : Phase} {post : Phase → Except CoreError β → Prop}
    (h : Obeys vaultDiscipline p ph post) : Obeys discipline (lift p) ph post := by
  induction p generalizing ph with
  | ret b => exact h
  | throw e => exact h
  | act a next ih => exact ⟨h.1, fun r => ih r (h.2 r)⟩

/-- A success ends in the phase `ph`, with a result in `P`. -/
def Leads (ph : Phase) (P : β → Prop) (ph' : Phase) : Except CoreError β → Prop
  | .ok b => ph' = ph ∧ P b
  | .error _ => True

section Obeys

variable {γ : Type} {ph : Phase}

theorem Leads.bind {ph₁ : Phase} {P : β → Prop} {post : Phase → Except CoreError γ → Prop} {p : AccessGrants.Prog β}
    {f : β → AccessGrants.Prog γ} (h : Obeys vaultDiscipline p ph (Leads ph₁ P))
    (hf : ∀ b, P b → Obeys vaultDiscipline (f b) ph₁ post) (herror : ∀ ph e, post ph (.error e)) :
    Obeys vaultDiscipline (p >>= f) ph post := by
  refine h.bind ?_ fun ph e _ => herror ph e
  rintro _ b ⟨rfl, hb⟩
  exact hf b hb

theorem leads_call {a : AccessGrants.Action} (ha : ph.Allowed (.vault a))
    (hok : ∀ x, ph.next (.vault a) (.ok x) = ph) :
    Obeys vaultDiscipline (AccessGrants.call a) ph (Leads ph fun _ => True) := by
  refine Obeys.call ha fun r => ?_
  cases r with
  | ok x => exact ⟨hok x, trivial⟩
  | error e => trivial

/-- A grant that was read leads to the phase of its row. -/
theorem obeys_get (id : Str) :
    Obeys vaultDiscipline (get id) ph fun ph' r =>
      match r with
      | .ok grant => ph' = ph.next (.vault (.getGrant id)) (.ok (some grant))
      | .error _ => True := by
  refine Obeys.call_bind trivial (fun grant => ?_) fun _ => trivial
  cases grant with
  | none => trivial
  | some grant => rfl

theorem leads_get {id : Str} (hidle : ph ≠ .idle) :
    Obeys vaultDiscipline (get id) ph (Leads ph fun _ => True) := by
  refine (obeys_get id).mono fun ph' r h => ?_
  cases r with
  | error e => trivial
  | ok grant =>
      refine ⟨h.trans ?_, trivial⟩
      cases ph with
      | idle => exact absurd rfl hidle
      | _ => rfl

variable {grantId : Str}

theorem leads_decryptAll (ms : List EnvMapping) :
    Obeys vaultDiscipline (decryptAll ms) (.consumed grantId) (Leads (.consumed grantId) fun _ => True) := by
  induction ms with
  | nil => exact ⟨rfl, trivial⟩
  | cons m ms ih =>
      refine Leads.bind (leads_call trivial fun _ => rfl) (fun value _ => ?_) fun _ _ => trivial
      exact Leads.bind ih (fun rest _ => ⟨rfl, trivial⟩) fun _ _ => trivial

variable {sessionId : Str}

theorem leads_totalReported (source : CostSource) (ids : List Str) :
    Obeys vaultDiscipline (totalReported source ids) (.started grantId sessionId)
      (Leads (.started grantId sessionId) fun _ => True) := by
  induction ids with
  | nil => exact ⟨rfl, trivial⟩
  | cons id ids ih =>
      refine Leads.bind (leads_call trivial fun _ => rfl) (fun used _ => ?_) fun _ _ => trivial
      exact Leads.bind ih (fun rest _ => ⟨rfl, trivial⟩) fun _ _ => trivial

theorem leads_budgetWarnings (formatMicros : Int → Str) (grant : AccessGrant) (ms : List EnvMapping) :
    Obeys vaultDiscipline (budgetWarnings formatMicros grant ms) (.started grantId sessionId)
      (Leads (.started grantId sessionId) fun _ => True) := by
  unfold budgetWarnings
  split
  · exact ⟨rfl, trivial⟩
  · refine Leads.bind (leads_call trivial fun _ => rfl) (fun source _ => ?_) fun _ _ => trivial
    refine Leads.bind (leads_totalReported source _) (fun total _ => ?_) fun _ _ => trivial
    split
    · exact ⟨rfl, trivial⟩
    · exact ⟨rfl, trivial⟩

/-- An injection that is returned has a session that was started. -/
def Injected (grantId : Str) (ph : Phase) : Except CoreError GrantInjection → Prop
  | .ok injection => ph = .started grantId injection.sessionId
  | .error _ => True

theorem obeys_inject (formatMicros : Int → Str) (commandLabel projectId : Str) (grant : AccessGrant)
    (ms : List EnvMapping) :
    Obeys vaultDiscipline (inject formatMicros grantId commandLabel projectId grant ms)
      (.consumed grantId) (Injected grantId) := by
  refine Leads.bind (leads_decryptAll ms) (fun env _ => ?_) fun _ _ => trivial
  refine Obeys.call_bind ⟨grantId, rfl⟩ (fun sessionId => ?_) fun _ => trivial
  refine Obeys.call_bind trivial (fun _ => ?_) fun _ => trivial
  refine Obeys.call_bind rfl (fun _ => ?_) fun _ => trivial
  exact Leads.bind (leads_budgetWarnings formatMicros grant ms) (fun _ _ => rfl) fun _ _ => trivial

/-- No launch was consumed yet. -/
def Phase.Before (ph : Phase) : Prop := ph = .idle ∨ ∃ id, ph = .revoked id

theorem before_getGrant (h : ph.Before) (id : Str) (grant : AccessGrant) :
    (ph.next (.vault (.getGrant id)) (.ok (some grant))).Before := by
  obtain rfl | ⟨id', rfl⟩ := h
  · show Phase.Before (if grant.revokedAt.isSome then .revoked id else .idle)
    split
    · exact .inr ⟨id, rfl⟩
    · exact .inl rfl
  · exact .inr ⟨id', rfl⟩

theorem obeys_consumeLaunch (h : ph.Before) :
    Obeys vaultDiscipline (consumeLaunch grantId) ph (Leads (.consumed grantId) fun _ => True) := by
  refine Obeys.call_bind trivial (fun now => ?_) fun _ => trivial
  refine Obeys.call_bind h (fun consumed => ?_) fun _ => trivial
  cases consumed with
  | true => exact leads_get (by rintro ⟨⟩)
  | false => exact (obeys_get grantId).bind (fun _ _ _ => trivial) fun _ _ _ => trivial

theorem obeys_build (formatMicros : Int → Str) (commandLabel : Str) :
    Obeys vaultDiscipline (buildInjectionWithGrant formatMicros grantId commandLabel) .idle
      (Injected grantId) := by
  refine (obeys_get grantId).bind ?_ fun _ _ _ => trivial
  rintro _ grant rfl
  refine Leads.bind (leads_call trivial fun _ => rfl) (fun projectId _ => ?_) fun _ _ => trivial
  refine Leads.bind (leads_call trivial fun _ => rfl) (fun mappings _ => ?_) fun _ _ => trivial
  dsimp only
  split
  · trivial
  · refine Leads.bind (obeys_consumeLaunch (before_getGrant (.inl rfl) grantId grant)) (fun grant _ => ?_) fun _ _ => trivial
    exact obeys_inject formatMicros commandLabel projectId grant _

theorem obeys_revoke (id : Str) :
    Obeys vaultDiscipline (revoke id) .idle (Leads (.revoked id) fun _ => True) := by
  refine (obeys_get id).bind ?_ fun _ _ _ => trivial
  intro ph grant hph
  obtain rfl : ph = if grant.revokedAt.isSome then .revoked id else .idle := hph
  cases grant.revokedAt with
  | some t => exact leads_get (by rintro ⟨⟩)
  | none =>
      refine Obeys.call_bind trivial (fun now => ?_) fun _ => trivial
      refine Obeys.call_bind rfl (fun _ => ?_) fun _ => trivial
      exact leads_get (by rintro ⟨⟩)

theorem obeys_accessGrantEnd (id : Str) :
    Obeys vaultDiscipline (accessGrantEnd id) .idle fun ph r =>
      match r with
      | .ok x => ph = .listed id x.2
      | .error _ => True := by
  refine Leads.bind (obeys_revoke id) (fun grant _ => ?_) fun _ _ => trivial
  refine Obeys.call_bind rfl (fun running => ?_) fun _ => trivial
  exact Obeys.call_bind trivial (fun _ => rfl) fun _ => trivial

theorem obeys_supervise (grantId sessionId : Str) (pid : Int) :
    Obeys discipline (supervise grantId sessionId pid) (.running grantId sessionId pid false)
      fun _ _ => True := by
  have hwait (recorded : Bool) : Obeys discipline (do
      let _ ← (call (.wait pid)).attempt
      let _ ← (call (.endSession sessionId)).attempt
      return) (.running grantId sessionId pid recorded) fun _ _ => True := by
    refine ⟨⟨grantId, sessionId, recorded, rfl⟩, fun r => ?_⟩
    cases r with
    | ok x => exact ⟨.inr (.inr rfl), fun r => by cases r <;> trivial⟩
    | error e => exact ⟨.inr (.inl ⟨grantId, pid, recorded, rfl⟩), fun r => by cases r <;> trivial⟩
  refine ⟨rfl, fun r => ?_⟩
  cases r with
  | ok x => exact hwait true
  | error e => exact hwait false

theorem obeys_launch (formatMicros : Int → Str) (grantId commandLabel : Str) :
    Obeys discipline (launch formatMicros grantId commandLabel) .idle fun _ _ => True := by
  refine (obeys_lift (obeys_build formatMicros commandLabel)).bind ?_ fun _ _ _ => trivial
  rintro _ injection rfl
  refine ⟨rfl, fun r => ?_⟩
  cases r with
  | ok pid => exact obeys_supervise grantId injection.sessionId pid
  | error e => exact ⟨.inl ⟨grantId, rfl⟩, fun r => by cases r <;> trivial⟩

theorem obeys_program (formatMicros : Int → Str) (op : Op) :
    Obeys discipline (program formatMicros op) .idle fun _ _ => True := by
  cases op with
  | run grantId commandLabel => exact obeys_launch formatMicros grantId commandLabel
  | endGrant id =>
      refine (obeys_lift (obeys_accessGrantEnd id)).bind ?_ fun _ _ _ => trivial
      rintro _ ⟨grant, running⟩ rfl
      exact Obeys.call rfl fun _ => trivial
  | exit pid => exact Obeys.call trivial fun _ => trivial
  | setClock t => exact Obeys.call trivial fun _ => trivial

end Obeys

/-! ## What holds along a run -/

abbrev Process := Proc Answer CoreError Unit

abbrev phase (q : Process) : Phase := q.knows discipline .idle

/-- The session that a launch relies on. -/
def Phase.session : Phase → Option Str
  | .started _ sessionId | .running _ sessionId _ _ | .exited sessionId => some sessionId
  | _ => none

/-- The row of the session is there, not ended, and holds what was recorded. -/
def Held (sessions : List Session) : Phase → Prop
  | .started _ sessionId | .exited sessionId => ∃ row ∈ sessions, row.id = sessionId ∧ row.ended = false
  | .running grantId sessionId pid recorded => ∃ row ∈ sessions, row.id = sessionId ∧ row.ended = false ∧
      (recorded = true → row.grantId = some grantId ∧ row.pid = some pid)
  | _ => True

/-- The row of the grant, if there is one, is revoked. -/
def Revoked (s : State) (id : Str) : Prop := ∀ g, s.vault.grants id = some g → g.revokedAt.isSome = true

/-- The process knows that the grant is revoked. -/
def Phase.Sees (ph : Phase) (id : Str) : Prop := ph = .revoked id ∨ ∃ sessions, ph = .listed id sessions

/-- A launch of the grant that may still spawn its child. -/
def Phase.Launching (ph : Phase) (id : Str) : Prop :=
  ph = .consumed id ∨ ∃ sessionId, ph = .started id sessionId

/-- The process has spawned the child. -/
def Phase.HasChild (ph : Phase) (c : Child) : Prop :=
  (∃ recorded, ph = .running c.grantId c.sessionId c.pid recorded) ∨
    ph = .lost c.grantId c.sessionId c.pid

/-- A launch of the grant between its consumption and the record of its process id, or whose wait failed. -/
def Phase.Unsettled (ph : Phase) (id : Str) : Prop :=
  ph.Launching id ∨ (∃ sessionId pid, ph = .running id sessionId pid false) ∨
    ∃ sessionId pid, ph = .lost id sessionId pid

/-- The grant whose sessions are listed. -/
def Action.lists : Action → Option Str
  | .vault (.runningSessions id) => some id
  | _ => none

/-- At a listing, every launch of the grant has recorded its child or has none any more. -/
def Settled (w : World State Answer CoreError Unit) (_ : Process) (e : Event Answer CoreError) : Prop :=
  ∀ id, e.1.lists = some id → ∀ q ∈ w.procs, ¬ (phase q).Unsettled id

structure Invariant (w : World State Answer CoreError Unit) : Prop where
  held : ∀ q ∈ w.procs, Held w.state.sessions (phase q)
  distinct : ∀ (i j : Nat) (p q : Process), w.procs[i]? = some p → w.procs[j]? = some q → ∀ sessionId,
    (phase p).session = some sessionId → (phase q).session = some sessionId → i = j
  children : ∀ c ∈ w.state.children, ∃ (i : Nat) (q : Process), w.procs[i]? = some q ∧ (phase q).HasChild c
  revoked : ∀ q ∈ w.procs, ∀ id, (phase q).Sees id → Revoked w.state id
  listed : ∀ q ∈ w.procs, ∀ id sessions, phase q = .listed id sessions →
    (∀ q' ∈ w.procs, ¬ (phase q').Launching id) ∧
      ∀ c ∈ w.state.children, c.grantId = id → (c.sessionId, c.pid) ∈ sessions
  ended : ∀ e ∈ w.state.ended, ∀ c ∈ e.running, (c.sessionId, c.pid) ∈ e.listed

/-- What an action may do to the state and to the phase of its process. -/
structure Local (s : State) (ph : Phase) (s' : State) (ph' : Phase) : Prop where
  others : ∀ o, Held s.sessions o → (∀ sessionId, ph.session = some sessionId → o.session ≠ some sessionId) →
    Held s'.sessions o
  own : Held s.sessions ph → Held s'.sessions ph'
  ids : ∀ sessionId, ph'.session = some sessionId →
    ph.session = some sessionId ∨ ∀ row ∈ s.sessions, row.id ≠ sessionId
  children : ∀ c ∈ s'.children, c ∈ s.children ∨ ph = .started c.grantId c.sessionId ∧ ph'.HasChild c
  keeps : ∀ c ∈ s'.children, ph.HasChild c → ph'.HasChild c
  revokes : ∀ id, Revoked s id → Revoked s' id
  sees : ∀ id, ph'.Sees id → ph.Sees id ∨ Revoked s' id
  launching : ∀ id, ph'.Launching id → ph.Launching id ∨ ¬ Revoked s id
  ended : ∀ e ∈ s'.ended, e ∈ s.ended ∨ ∃ id, ph = .listed id e.listed ∧
    ∀ c ∈ e.running, c ∈ s.children ∧ c.grantId = id

theorem Held.session {sessions : List Session} {ph : Phase} {sessionId : Str} (h : Held sessions ph)
    (hsession : ph.session = some sessionId) : ∃ row ∈ sessions, row.id = sessionId := by
  cases ph with
  | started g s | exited s =>
      obtain ⟨row, hrow, hid, -⟩ := h
      exact ⟨row, hrow, hid.trans (Option.some.inj hsession)⟩
  | running g s pid recorded =>
      obtain ⟨row, hrow, hid, -⟩ := h
      exact ⟨row, hrow, hid.trans (Option.some.inj hsession)⟩
  | _ => cases hsession

section Move

variable {w : World State Answer CoreError Unit} {i : Nat} {p p' : Process} {s' : State}
  {trace : List (Event Answer CoreError)}

/-- A local action keeps the invariant, when what it lists is right. -/
theorem Invariant.move (hI : Invariant w) (hp : w.procs[i]? = some p)
    (hlocal : Local w.state (phase p) s' (phase p'))
    (hlists : ∀ id sessions, phase p' = .listed id sessions → phase p = .listed id sessions ∨
      ((∀ q ∈ w.procs, ¬ (phase q).Launching id) ∧
        ∀ c ∈ s'.children, c.grantId = id → (c.sessionId, c.pid) ∈ sessions)) :
    Invariant ⟨s', w.procs.set i p', trace⟩ := by
  have hpmem : p ∈ w.procs := List.mem_of_getElem? hp
  have hheld := hI.held p hpmem
  have hrevoked : ∀ q ∈ w.procs, ∀ id, (phase q).Sees id → Revoked s' id :=
    fun q hq id hsees => hlocal.revokes id (hI.revoked q hq id hsees)
  constructor
  · intro q hq
    obtain ⟨j, hj⟩ := List.getElem?_of_mem hq
    obtain ⟨-, rfl⟩ | ⟨hne, hj⟩ := getElem?_procs_set hj
    · exact hlocal.own hheld
    · refine hlocal.others _ (hI.held q (List.mem_of_getElem? hj)) fun sessionId hs hq => hne ?_
      exact hI.distinct j i q p hj hp sessionId hq hs
  · intro j k q q' hj hk sessionId hs hs'
    have hfresh : ∀ {j : Nat} {q : Process}, w.procs[j]? = some q → j ≠ i →
        (phase p').session = some sessionId → (phase q).session = some sessionId → False := by
      intro j q hj hne hown hother
      obtain hsame | hnew := hlocal.ids sessionId hown
      · exact hne (hI.distinct j i q p hj hp sessionId hother hsame)
      · obtain ⟨row, hrow, hid⟩ := (hI.held q (List.mem_of_getElem? hj)).session hother
        exact hnew row hrow hid
    obtain ⟨hji, rfl⟩ | ⟨hnej, hjold⟩ := getElem?_procs_set hj <;>
      obtain ⟨hki, rfl⟩ | ⟨hnek, hkold⟩ := getElem?_procs_set hk
    · rw [hji, hki]
    · exact (hfresh hkold hnek hs hs').elim
    · exact (hfresh hjold hnej hs' hs).elim
    · exact hI.distinct j k q q' hjold hkold sessionId hs hs'
  · intro c hc
    have hlt : i < w.procs.length := (List.getElem?_eq_some_iff.1 hp).1
    have hset : (w.procs.set i p')[i]? = some p' := List.getElem?_set_self hlt
    obtain hold | ⟨-, hchild⟩ := hlocal.children c hc
    · obtain ⟨j, q, hj, hchild⟩ := hI.children c hold
      by_cases hji : j = i
      · subst hji
        obtain rfl := Option.some.inj (hp.symm.trans hj)
        exact ⟨j, p', hset, hlocal.keeps c hc hchild⟩
      · exact ⟨j, q, (List.getElem?_set_ne (Ne.symm hji)).trans hj, hchild⟩
    · exact ⟨i, p', hset, hchild⟩
  · refine forall_procs_set hrevoked fun id hsees => ?_
    obtain hbefore | hnow := hlocal.sees id hsees
    · exact hrevoked p hpmem id hbefore
    · exact hnow
  · -- A process that has listed: no launch of the grant is left that could spawn another child.
    have hkept : ∀ q ∈ w.procs, ∀ id sessions, phase q = .listed id sessions →
        (∀ q' ∈ w.procs.set i p', ¬ (phase q').Launching id) ∧
          ∀ c ∈ s'.children, c.grantId = id → (c.sessionId, c.pid) ∈ sessions := by
      intro q hq id sessions hphase
      obtain ⟨hnone, hlisted⟩ := hI.listed q hq id sessions hphase
      have hgone : Revoked w.state id := hI.revoked q hq id (.inr ⟨sessions, hphase⟩)
      refine ⟨forall_procs_set hnone fun hlaunch => ?_, fun c hc hid => ?_⟩
      · obtain hbefore | hnot := hlocal.launching id hlaunch
        · exact hnone p hpmem hbefore
        · exact hnot hgone
      · obtain hold | ⟨hstarted, -⟩ := hlocal.children c hc
        · exact hlisted c hold hid
        · exact absurd (.inr ⟨c.sessionId, hid ▸ hstarted⟩) (hnone p hpmem)
    refine forall_procs_set hkept fun id sessions hphase => ?_
    obtain hbefore | ⟨hnone, hlisted⟩ := hlists id sessions hphase
    · exact hkept p hpmem id sessions hbefore
    · refine ⟨forall_procs_set hnone ?_, hlisted⟩
      rw [hphase]
      rintro (hlaunch | ⟨_, hlaunch⟩)
      · cases hlaunch
      · cases hlaunch
  · intro e he c hc
    obtain hold | ⟨id, hphase, hrunning⟩ := hlocal.ended e he
    · exact hI.ended e hold c hc
    · obtain ⟨hchild, hid⟩ := hrunning c hc
      exact (hI.listed p hpmem id _ hphase).2 c hchild hid

end Move

/-! ## The actions -/

section Actions

variable {s s' : State} {ph ph' : Phase}

/-- An action that leaves the sessions, the children and the answers as they are. -/
theorem Local.quiet (hsessions : s'.sessions = s.sessions) (hchildren : s'.children = s.children)
    (hended : s'.ended = s.ended) (hrevokes : ∀ id, Revoked s id → Revoked s' id)
    (hown : Held s.sessions ph → Held s.sessions ph')
    (hids : ∀ sessionId, ph'.session = some sessionId → ph.session = some sessionId)
    (hkeeps : ∀ c, ph.HasChild c → ph'.HasChild c)
    (hsees : ∀ id, ph'.Sees id → ph.Sees id ∨ Revoked s' id)
    (hlaunching : ∀ id, ph'.Launching id → ph.Launching id ∨ ¬ Revoked s id) : Local s ph s' ph' where
  others o ho _ := hsessions ▸ ho
  own h := hsessions ▸ hown h
  ids sessionId h := .inl (hids sessionId h)
  children c hc := .inl (hchildren ▸ hc)
  keeps c _ h := hkeeps c h
  revokes := hrevokes
  sees := hsees
  launching := hlaunching
  ended e he := .inl (hended ▸ he)

theorem Local.same (hsessions : s'.sessions = s.sessions) (hchildren : s'.children = s.children)
    (hended : s'.ended = s.ended) (hrevokes : ∀ id, Revoked s id → Revoked s' id) : Local s ph s' ph :=
  .quiet hsessions hchildren hended hrevokes id (fun _ h => h) (fun _ h => h) (fun _ h => .inl h)
    fun _ h => .inl h

theorem Local.failed (hsessions : s'.sessions = s.sessions) (hchildren : s'.children = s.children)
    (hended : s'.ended = s.ended) (hrevokes : ∀ id, Revoked s id → Revoked s' id) :
    Local s ph s' ph.failed := by
  have hover (ph : Phase) (hchild : ∀ c, ¬ ph.HasChild c) : Local s ph s' .over := by
    refine .quiet hsessions hchildren hended hrevokes (fun _ => trivial) (fun _ h => by cases h)
      (fun c h => (hchild c h).elim) (fun id h => ?_) fun id h => ?_
    · obtain h | ⟨_, h⟩ := h <;> cases h
    · obtain h | ⟨_, h⟩ := h <;> cases h
  cases ph with
  | consumed g =>
      refine hover _ fun c h => ?_
      obtain ⟨_, h⟩ | h := h <;> cases h
  | started g sid =>
      refine hover _ fun c h => ?_
      obtain ⟨_, h⟩ | h := h <;> cases h
  | _ => exact .same hsessions hchildren hended hrevokes

theorem revoked_setGrant {g : Str} {f : AccessGrant → AccessGrant} {id : Str}
    (hf : ∀ row : AccessGrant, row.revokedAt.isSome = true → (f row).revokedAt.isSome = true)
    (h : Revoked s id) : Revoked { s with vault := s.vault.setGrant g f } id := by
  intro row hrow
  simp only [AccessGrants.State.setGrant, Function.update_apply] at hrow
  split_ifs at hrow with hid
  · obtain ⟨before, hbefore, rfl⟩ := Option.map_eq_some_iff.1 hrow
    exact hf before (h before (hid ▸ hbefore))
  · exact h row hrow

/-- No statement takes a revocation back. -/
theorem revoked_effect (a : AccessGrants.Action) (r : Except CoreError (AccessGrants.Answer a)) {id : Str}
    (h : Revoked s id) : Revoked { s with vault := AccessGrants.effect s.vault a r } id := by
  match a, r with
  | .consumeLaunch g _, .ok true => exact revoked_setGrant (fun _ hrow => hrow) h
  | .setRevoked g now, .ok _ => exact revoked_setGrant (fun _ _ => rfl) h
  | .consumeLaunch _ _, .ok false => exact h
  | .answer _ (.ok _), .ok _ => exact h
  | .answer _ (.error _), .ok _ => exact h
  | .setClock _, .ok _ => exact h
  | .now, .ok _ => exact h
  | .getGrant _, .ok _ => exact h
  | .projectRowByIdent _, .ok _ => exact h
  | .listMappings _, .ok _ => exact h
  | .decryptValue _, .ok _ => exact h
  | .startSession _ _ _, .ok _ => exact h
  | .audit _ _ _, .ok _ => exact h
  | .setSessionGrant _ _, .ok _ => exact h
  | .budgetCostSource, .ok _ => exact h
  | .credentialReport _ _, .ok _ => exact h
  | .runningSessions _, .ok _ => exact h
  | .answer _ (.ok _), .error _ => exact h
  | .answer _ (.error _), .error _ => exact h
  | .consumeLaunch _ _, .error _ | .setRevoked _ _, .error _ | .setClock _, .error _ => exact h
  | .now, .error _ | .getGrant _, .error _ | .projectRowByIdent _, .error _ => exact h
  | .listMappings _, .error _ | .decryptValue _, .error _ | .startSession _ _ _, .error _ => exact h
  | .audit _ _ _, .error _ | .setSessionGrant _ _, .error _ | .budgetCostSource, .error _ => exact h
  | .credentialReport _ _, .error _ | .runningSessions _, .error _ => exact h

/-- An update of one session leaves what is held of another. -/
theorem held_update {sessionId : Str} {f : Session → Session} {o : Phase} (h : Held s.sessions o)
    (hne : o.session ≠ some sessionId) : Held (s.update sessionId f).sessions o := by
  have hkept {row : Session} (hrow : row ∈ s.sessions) (hid : row.id ≠ sessionId) :
      row ∈ (s.update sessionId f).sessions :=
    List.mem_map.2 ⟨row, hrow, if_neg hid⟩
  cases o with
  | started g sid | exited sid =>
      obtain ⟨row, hrow, hid, hrest⟩ := h
      exact ⟨row, hkept hrow fun h => hne (congrArg some (hid.symm.trans h)), hid, hrest⟩
  | running g sid pid recorded =>
      obtain ⟨row, hrow, hid, hrest⟩ := h
      exact ⟨row, hkept hrow fun h => hne (congrArg some (hid.symm.trans h)), hid, hrest⟩
  | _ => trivial

/-- An update of the own session. -/
theorem Local.update {sessionId : Str} {f : Session → Session} (hsession : ph.session = some sessionId)
    (hown : Held s.sessions ph → Held (s.update sessionId f).sessions ph')
    (hids : ∀ sessionId, ph'.session = some sessionId → ph.session = some sessionId)
    (hkeeps : ∀ c, ph.HasChild c → ph'.HasChild c)
    (hsees : ∀ id, ph'.Sees id → ph.Sees id)
    (hlaunching : ∀ id, ph'.Launching id → ph.Launching id) :
    Local s ph (s.update sessionId f) ph' where
  others _ ho hne := held_update ho (hne sessionId hsession)
  own := hown
  ids sessionId h := .inl (hids sessionId h)
  children _ hc := .inl hc
  keeps c _ h := hkeeps c h
  revokes _ h := h
  sees id h := .inl (hsees id h)
  launching id h := .inl (hlaunching id h)
  ended _ he := .inl he

theorem Local.started {g sid : Str} (hfresh : ∀ row ∈ s.sessions, row.id ≠ sid) :
    Local s (.consumed g) { s with sessions := s.sessions ++ [⟨sid, none, none, false⟩] }
      (.started g sid) where
  others o ho _ := by
    cases o with
    | started _ _ | exited _ | running _ _ _ _ =>
        obtain ⟨row, hrow, hrest⟩ := ho
        exact ⟨row, List.mem_append_left _ hrow, hrest⟩
    | _ => trivial
  own _ := ⟨⟨sid, none, none, false⟩, by simp, rfl, rfl⟩
  ids sessionId h := .inr ((Option.some.inj h) ▸ hfresh)
  children c hc := .inl hc
  keeps c _ h := by obtain ⟨_, h⟩ | h := h <;> cases h
  revokes _ h := h
  sees id h := by obtain h | ⟨_, h⟩ := h <;> cases h
  launching id h := by
    obtain h | ⟨_, h⟩ := h
    · cases h
    · cases h
      exact .inl (.inl rfl)
  ended e he := .inl he

theorem Local.spawned {g sid : Str} {pid : Int} :
    Local s (.started g sid) { s with children := s.children ++ [⟨pid, g, sid⟩] }
      (.running g sid pid false) where
  others o ho _ := ho
  own h := by
    obtain ⟨row, hrow, hid, hended⟩ := h
    exact ⟨row, hrow, hid, hended, nofun⟩
  ids sessionId h := .inl h
  children c hc := by
    obtain hc | hc := List.mem_append.1 hc
    · exact .inl hc
    · obtain rfl := List.mem_singleton.1 hc
      exact .inr ⟨rfl, .inl ⟨false, rfl⟩⟩
  keeps c _ h := by obtain ⟨_, h⟩ | h := h <;> cases h
  revokes _ h := h
  sees id h := by obtain h | ⟨_, h⟩ := h <;> cases h
  launching id h := by obtain h | ⟨_, h⟩ := h <;> cases h
  ended e he := .inl he

theorem Local.recorded {g sid : Str} {pid : Int} :
    Local s (.running g sid pid false)
      (s.update sid fun row => { row with pid := some pid, grantId := some g }) (.running g sid pid true) := by
  refine .update rfl ?_ (fun _ h => h) ?_ ?_ ?_
  · rintro ⟨row, hrow, hid, hended, -⟩
    exact ⟨_, List.mem_map.2 ⟨row, hrow, if_pos hid⟩, hid, hended, fun _ => ⟨rfl, rfl⟩⟩
  · rintro c (⟨_, h⟩ | h)
    · cases h
      exact .inl ⟨true, rfl⟩
    · cases h
  · rintro id (h | ⟨_, h⟩) <;> cases h
  · rintro id (h | ⟨_, h⟩) <;> cases h

/-- Behind a wait that returned the child is none of the running ones. -/
theorem Local.waited {g sid : Str} {pid : Int} {recorded : Bool} (hgone : ∀ c ∈ s.children, c.pid ≠ pid) :
    Local s (.running g sid pid recorded) s (.exited sid) where
  others o ho _ := ho
  own h := by
    obtain ⟨row, hrow, hid, hended, -⟩ := h
    exact ⟨row, hrow, hid, hended⟩
  ids sessionId h := .inl h
  children c hc := .inl hc
  keeps c hc h := by
    obtain ⟨_, h⟩ | h := h
    · cases h
      exact absurd rfl (hgone c hc)
    · cases h
  revokes _ h := h
  sees id h := by obtain h | ⟨_, h⟩ := h <;> cases h
  launching id h := by obtain h | ⟨_, h⟩ := h <;> cases h
  ended e he := .inl he

/-- The end of the own session, whether or not it was written. -/
theorem Local.ended_session {sid : Str} (hsession : ph.session = some sid)
    (hs' : s' = s ∨ s' = s.update sid fun row => { row with ended := true })
    (hheld : ∀ sessions, Held sessions ph') (hnone : ph'.session = none)
    (hkeeps : ∀ c, ph.HasChild c → ph'.HasChild c) (hsees : ∀ id, ¬ ph'.Sees id)
    (hlaunching : ∀ id, ¬ ph'.Launching id) : Local s ph s' ph' := by
  have hids : ∀ sessionId, ph'.session = some sessionId → ph.session = some sessionId :=
    fun sessionId h => by rw [hnone] at h; cases h
  obtain rfl | rfl := hs'
  · exact .quiet rfl rfl rfl (fun _ h => h) (fun _ => hheld _) hids hkeeps (fun id h => (hsees id h).elim)
      fun id h => (hlaunching id h).elim
  · exact .update hsession (fun _ => hheld _) hids hkeeps (fun id h => (hsees id h).elim)
      fun id h => (hlaunching id h).elim

theorem Local.endSession {sid : Str} (hallowed : ph.Allowed (.endSession sid)) {r : Except CoreError Unit}
    (hs' : s' = s ∨ s' = s.update sid fun row => { row with ended := true }) :
    Local s ph s' (ph.next (.endSession sid) r) := by
  obtain ⟨g, rfl⟩ | ⟨g, pid, recorded, rfl⟩ | rfl := hallowed
  · refine .ended_session rfl hs' (fun _ => trivial) rfl ?_ ?_ ?_
    · rintro c (⟨_, h⟩ | h) <;> cases h
    · rintro id (h | ⟨_, h⟩) <;> cases h
    · rintro id (h | ⟨_, h⟩) <;> cases h
  · refine .ended_session rfl hs' (fun _ => trivial) rfl ?_ ?_ ?_
    · rintro c (⟨_, h⟩ | h)
      · cases h
        exact .inr rfl
      · cases h
    · rintro id (h | ⟨_, h⟩) <;> cases h
    · rintro id (h | ⟨_, h⟩) <;> cases h
  · refine .ended_session rfl hs' (fun _ => trivial) rfl ?_ ?_ ?_
    · rintro c (⟨_, h⟩ | h) <;> cases h
    · rintro id (h | ⟨_, h⟩) <;> cases h
    · rintro id (h | ⟨_, h⟩) <;> cases h

/-- A reading that ends in a phase of the process that ends the grant. -/
theorem Local.seen (hsessions : s'.sessions = s.sessions) (hchildren : s'.children = s.children)
    (hended : s'.ended = s.ended) (hrevokes : ∀ id, Revoked s id → Revoked s' id)
    (hidle : ∀ c, ¬ ph.HasChild c) (hheld : ∀ sessions, Held sessions ph') (hnone : ph'.session = none)
    (hsees : ∀ id, ph'.Sees id → ph.Sees id ∨ Revoked s' id)
    (hlaunching : ∀ id, ph'.Launching id → ¬ Revoked s id) : Local s ph s' ph' :=
  .quiet hsessions hchildren hended hrevokes (fun _ => hheld _) (fun _ h => by rw [hnone] at h; cases h)
    (fun c h => (hidle c h).elim) hsees fun id h => .inr (hlaunching id h)

theorem local_getGrant {id : Str} {grant : AccessGrant} (hrow : some grant = s.vault.grants id) :
    Local s ph s (ph.next (.vault (.getGrant id)) (.ok (some grant))) := by
  have hsame (ph : Phase) : Local s ph s ph := .same rfl rfl rfl fun _ h => h
  cases ph with
  | idle =>
      show Local s .idle s (if grant.revokedAt.isSome then .revoked id else .idle)
      split
      · rename_i hrevoked
        refine .seen rfl rfl rfl (fun _ h => h) ?_ (fun _ => trivial) rfl ?_ ?_
        · rintro c (⟨_, h⟩ | h) <;> cases h
        · rintro id' (h | ⟨_, h⟩)
          · cases h
            refine .inr fun row hrow' => ?_
            obtain rfl := Option.some.inj (hrow.trans hrow')
            exact hrevoked
          · cases h
        · rintro id' (h | ⟨_, h⟩) <;> cases h
      · exact hsame _
  | _ => exact hsame _

theorem local_setRevoked {id : Str} {now : Clock.Timestamp} :
    Local s .idle { s with vault := AccessGrants.effect s.vault (.setRevoked id now) (.ok ()) }
      (.revoked id) := by
  refine .seen rfl rfl rfl (fun _ => revoked_effect (.setRevoked id now) (.ok ())) ?_ (fun _ => trivial)
    rfl ?_ ?_
  · rintro c (⟨_, h⟩ | h) <;> cases h
  · rintro id' (h | ⟨_, h⟩)
    · cases h
      refine .inr fun row hrow => ?_
      have hset : (s.vault.grants id).map (fun g => { g with revokedAt := some now }) = some row := by
        simpa [AccessGrants.effect, AccessGrants.State.setGrant] using hrow
      obtain ⟨_, -, rfl⟩ := Option.map_eq_some_iff.1 hset
      rfl
    · cases h
  · rintro id' (h | ⟨_, h⟩) <;> cases h

theorem local_consumed {id : Str} {now : Clock.Timestamp}
    (hbefore : ph = .idle ∨ ∃ id, ph = .revoked id)
    (hrow : ∃ g, s.vault.grants id = some g ∧ g.consumable now = true) :
    Local s ph { s with vault := AccessGrants.effect s.vault (.consumeLaunch id now) (.ok true) }
      (.consumed id) := by
  refine .seen rfl rfl rfl (fun _ => revoked_effect (.consumeLaunch id now) (.ok true)) ?_
    (fun _ => trivial) rfl ?_ ?_
  · obtain rfl | ⟨_, rfl⟩ := hbefore <;> rintro c (⟨_, h⟩ | h) <;> cases h
  · rintro id' (h | ⟨_, h⟩) <;> cases h
  · -- A grant that is revoked has no launch to consume.
    rintro id' (h | ⟨_, h⟩)
    · cases h
      obtain ⟨g, hg, hconsumable⟩ := hrow
      intro hrevoked
      have hsome := hrevoked g hg
      simp [AccessGrant.consumable, Option.isNone_iff_eq_none] at hconsumable
      rw [hconsumable.1.1] at hsome
      cases hsome
    · cases h

theorem local_tagged {g sid : Str} :
    Local s (.started g sid) (s.update sid fun row => { row with grantId := some g }) (.started g sid) := by
  refine .update rfl ?_ (fun _ h => h) (fun _ h => h) (fun _ h => h) fun _ h => h
  rintro ⟨row, hrow, hid, hended⟩
  exact ⟨_, List.mem_map.2 ⟨row, hrow, if_pos hid⟩, hid, hended⟩

theorem local_listed {id : Str} {sessions : List (Str × Int)} (hs : s'.sessions = s.sessions)
    (hchildren : s'.children = s.children) (hended : s'.ended = s.ended)
    (hrevokes : ∀ id, Revoked s id → Revoked s' id) : Local s (.revoked id) s' (.listed id sessions) := by
  refine .seen hs hchildren hended hrevokes ?_ (fun _ => trivial) rfl ?_ ?_
  · rintro c (⟨_, h⟩ | h) <;> cases h
  · rintro id' (h | ⟨_, h⟩)
    · cases h
    · cases h
      exact .inl (.inl rfl)
  · rintro id' (h | ⟨_, h⟩) <;> cases h

theorem local_exited {pid : Int} :
    Local s ph { s with children := s.children.filter (·.pid ≠ pid) } ph where
  others _ ho _ := ho
  own h := h
  ids _ h := .inl h
  children _ hc := .inl (List.mem_of_mem_filter hc)
  keeps _ _ h := h
  revokes _ h := h
  sees _ h := .inl h
  launching _ h := .inl h
  ended _ he := .inl he

theorem local_returned {id : Str} {sessions : List (Str × Int)} :
    Local s (.listed id sessions)
      { s with ended := s.ended ++ [⟨sessions, s.children.filter (·.grantId = id)⟩] }
      (.listed id sessions) where
  others _ ho _ := ho
  own h := h
  ids _ h := .inl h
  children _ hc := .inl hc
  keeps _ _ h := h
  revokes _ h := h
  sees _ h := .inl h
  launching _ h := .inl h
  ended e he := by
    obtain he | he := List.mem_append.1 he
    · exact .inl he
    · obtain rfl := List.mem_singleton.1 he
      exact .inr ⟨id, rfl, fun c hc => by simpa using List.mem_filter.1 hc⟩

/-- Every action that is allowed is a local one. -/
theorem local_exec {a : Action} {r : Except CoreError (Answer a)} (ha : ph.Allowed a)
    (hexec : Exec s a r s') : Local s ph s' (ph.next a r) := by
  obtain ⟨hr, rfl⟩ := hexec
  match a, r with
  | .vault (.getGrant id), .ok (some grant) => exact local_getGrant hr
  | .vault (.getGrant id), .ok none => exact .failed rfl rfl rfl fun _ => revoked_effect _ _
  | .vault (.setRevoked id now), .ok () =>
      obtain rfl : ph = .idle := ha
      exact local_setRevoked
  | .vault (.runningSessions id), .ok sessions =>
      obtain rfl : ph = .revoked id := ha
      exact local_listed rfl rfl rfl fun _ => revoked_effect _ _
  | .vault (.consumeLaunch id now), .ok true => exact local_consumed ha hr
  | .vault (.consumeLaunch id now), .ok false => exact .same rfl rfl rfl fun _ => revoked_effect _ _
  | .vault (.startSession _ _ _), .ok sid =>
      obtain ⟨g, rfl⟩ := ha
      exact .started hr.2
  | .vault (.setSessionGrant sid g), .ok _ =>
      obtain rfl : ph = .started g sid := ha
      exact local_tagged
  | .spawn g sid, .ok pid =>
      obtain rfl : ph = .started g sid := ha
      exact .spawned
  | .spawn g sid, .error _ => exact .same rfl rfl rfl fun _ h => h
  | .setSessionPid sid pid g, .ok _ =>
      obtain rfl : ph = .running g sid pid false := ha
      exact .recorded
  | .setSessionPid sid pid g, .error _ => exact .same rfl rfl rfl fun _ h => h
  | .wait pid, .ok _ =>
      obtain ⟨g, sid, recorded, rfl⟩ := ha
      exact .waited hr
  | .wait pid, .error _ => exact .same rfl rfl rfl fun _ h => h
  | .endSession sid, .ok _ => exact .endSession ha (.inr rfl)
  | .endSession sid, .error _ => exact .endSession ha (.inl rfl)
  | .exit pid, .ok _ => exact local_exited
  | .exit pid, .error _ => exact .same rfl rfl rfl fun _ h => h
  | .returned id sessions, .ok _ =>
      obtain rfl : ph = .listed id sessions := ha
      exact local_returned
  | .returned id sessions, .error _ => exact .same rfl rfl rfl fun _ h => h
  | .vault a, .error e => cases a <;> exact .failed rfl rfl rfl fun _ => revoked_effect _ _
  | .vault .now, .ok _ | .vault (.projectRowByIdent _), .ok _ | .vault (.listMappings _), .ok _
  | .vault (.decryptValue _), .ok _ | .vault (.audit _ _ _), .ok _ | .vault .budgetCostSource, .ok _
  | .vault (.credentialReport _ _), .ok _ | .vault (.setClock _), .ok _
  | .vault (.answer _ _), .ok _ => exact .same rfl rfl rfl fun _ => revoked_effect _ _

theorem next_eq_listed {a : Action} {r : Except CoreError (Answer a)} {id : Str}
    {sessions : List (Str × Int)} (ha : ph.Allowed a) (h : ph.next a r = .listed id sessions) :
    ph = .listed id sessions ∨
      (⟨a, r⟩ : Event Answer CoreError) = ⟨.vault (.runningSessions id), .ok sessions⟩ := by
  have hfailed (h : ph.failed = .listed id sessions) : ph = .listed id sessions := by
    cases ph <;> first | exact h | cases h
  match a, r with
  | .vault (.getGrant _), .ok (some grant) =>
      cases ph with
      | idle =>
          have hif : (if grant.revokedAt.isSome then Phase.revoked _ else .idle) = .listed id sessions := h
          split_ifs at hif
      | _ => exact .inl h
  | .vault (.getGrant _), .ok none => exact .inl (hfailed h)
  | .vault (.setRevoked _ _), .ok () => cases h
  | .vault (.runningSessions _), .ok _ =>
      cases h
      exact .inr rfl
  | .vault (.consumeLaunch _ _), .ok true => cases h
  | .vault (.consumeLaunch _ _), .ok false => exact .inl h
  | .vault (.startSession _ _ _), .ok _ =>
      obtain ⟨g, rfl⟩ := ha
      cases h
  | .spawn _ _, .ok _ => cases h
  | .setSessionPid _ _ _, .ok _ => cases h
  | .wait _, .ok _ =>
      obtain ⟨g, sid, recorded, rfl⟩ := ha
      cases h
  | .endSession _, r => obtain ⟨g, rfl⟩ | ⟨g, pid, recorded, rfl⟩ | rfl := ha <;> cases h
  | .vault a, .error e => cases a <;> exact .inl (hfailed h)
  | .spawn _ _, .error _ | .setSessionPid _ _ _, .error _ | .wait _, .error _ => exact .inl h
  | .exit _, _ | .returned _ _, _ => exact .inl h
  | .vault .now, .ok _ | .vault (.projectRowByIdent _), .ok _ | .vault (.listMappings _), .ok _
  | .vault (.decryptValue _), .ok _ | .vault (.audit _ _ _), .ok _ | .vault .budgetCostSource, .ok _
  | .vault (.credentialReport _ _), .ok _ | .vault (.setClock _), .ok _
  | .vault (.answer _ _), .ok _ | .vault (.setSessionGrant _ _), .ok _ => exact .inl h

end Actions

/-! ## Listings -/

theorem mem_runningSessions {sessions : List Session} {id : Str} {row : Session} {pid : Int}
    (hrow : row ∈ sessions) (hgrant : row.grantId = some id) (hended : row.ended = false)
    (hpid : row.pid = some pid) : (row.id, pid) ∈ runningSessions sessions id :=
  List.mem_filterMap.2 ⟨row, hrow, by rw [if_pos ⟨hgrant, hended⟩, hpid]; rfl⟩

/-- A listing behind settled launches has every child of the grant. -/
theorem Invariant.settled {w : World State Answer CoreError Unit} (hI : Invariant w) {id : Str}
    (hsettled : ∀ q ∈ w.procs, ¬ (phase q).Unsettled id) {c : Child} (hc : c ∈ w.state.children)
    (hid : c.grantId = id) : (c.sessionId, c.pid) ∈ runningSessions w.state.sessions id := by
  obtain ⟨i, q, hq, hchild⟩ := hI.children c hc
  have hqmem := List.mem_of_getElem? hq
  have hno := hsettled q hqmem
  obtain ⟨recorded, hphase⟩ | hphase := hchild
  · cases recorded with
    | false => exact absurd (.inr (.inl ⟨_, _, hid ▸ hphase⟩)) hno
    | true =>
        have hheld := hI.held q hqmem
        rw [hphase] at hheld
        obtain ⟨row, hrow, hrowId, hended, hrecorded⟩ := hheld
        obtain ⟨hgrant, hpid⟩ := hrecorded rfl
        rw [← hrowId]
        exact mem_runningSessions hrow (hid ▸ hgrant) hended hpid
  · exact absurd (.inr (.inr ⟨_, _, hid ▸ hphase⟩)) hno

/-- A process that starts knows nothing yet. -/
theorem Invariant.start {w : World State Answer CoreError Unit} (hI : Invariant w) (prog : Prog Unit) :
    Invariant { w with procs := w.procs ++ [⟨some prog, []⟩] } := by
  have hold {i : Nat} {p : Process} (h : (w.procs ++ [⟨some prog, []⟩])[i]? = some p)
      {sessionId : Str} (hsession : (phase p).session = some sessionId) : w.procs[i]? = some p := by
    rw [List.getElem?_append] at h
    split_ifs at h with hlt
    · exact h
    · obtain rfl := List.mem_singleton.1 (List.mem_of_getElem? h)
      cases hsession
  refine ⟨forall_procs_start hI.held trivial, ?_, ?_, ?_, ?_, hI.ended⟩
  · intro i j p q hp hq sessionId hs hs'
    exact hI.distinct i j p q (hold hp hs) (hold hq hs') sessionId hs hs'
  · intro c hc
    obtain ⟨i, q, hq, hchild⟩ := hI.children c hc
    have hlt := (List.getElem?_eq_some_iff.1 hq).1
    exact ⟨i, q, (List.getElem?_append_left hlt).trans hq, hchild⟩
  · refine forall_procs_start hI.revoked fun id hsees => ?_
    obtain h | ⟨_, h⟩ := hsees <;> cases h
  · refine forall_procs_start (fun q hq id sessions hphase => ?_) fun id sessions hphase => by cases hphase
    obtain ⟨hnone, hlisted⟩ := hI.listed q hq id sessions hphase
    refine ⟨forall_procs_start hnone fun hlaunch => ?_, hlisted⟩
    obtain h | ⟨_, h⟩ := hlaunch <;> cases h

variable {formatMicros : Int → Str}

theorem steps_invariant {state : State} (hchildren : state.children = []) (hended : state.ended = [])
    {w : World State Answer CoreError Unit}
    (h : Steps (Step (system formatMicros) Settled) (World.initial state) w) : Invariant w := by
  refine System.invariant discipline .idle (obeys_program formatMicros) (fun w op hI => hI.start _) ?_ ?_ ?_ h
  · intro w i p a next r state hI hp _ hallowed hexec hcond
    have hnext : phase (p.perform (next r) ⟨a, r⟩) = (phase p).next a r := Proc.knows_perform ..
    refine hI.move hp ?_ fun id sessions hphase => ?_
    · rw [hnext]
      exact local_exec hallowed hexec
    · rw [hnext] at hphase
      obtain hbefore | hevent := next_eq_listed hallowed hphase
      · exact .inl hbefore
      · obtain ⟨rfl, hr⟩ := Sigma.mk.inj hevent
        obtain rfl := eq_of_heq hr
        have hsettled := hcond id rfl
        refine .inr ⟨fun q hq hlaunch => hsettled q hq (.inl hlaunch), fun c hc hid => ?_⟩
        obtain ⟨hreply, rfl⟩ := hexec
        obtain rfl : sessions = runningSessions w.state.sessions id := hreply
        exact hI.settled hsettled hc hid
  · intro w i p hI hp
    exact hI.move hp (.same rfl rfl rfl fun _ h => h) fun id sessions hphase => .inl hphase
  · refine ⟨nofun, fun i j p q hp => ?_, fun c hc => ?_, nofun, nofun, fun e he => ?_⟩
    · cases hp
    · rw [show (World.initial state : World State Answer CoreError Unit).state.children = [] from
        hchildren] at hc
      cases hc
    · rw [show (World.initial state : World State Answer CoreError Unit).state.ended = [] from
        hended] at he
      cases he

/-- In a run in which every listing finds the launches of its grant settled, each child of a grant that
still runs when `access_grant_end` returns is in the list that it returns. -/
theorem listed_when_settled (formatMicros : Int → Str) {state : State} (hchildren : state.children = [])
    (hended : state.ended = []) {w : World State Answer CoreError Unit}
    (h : Steps (Step (system formatMicros) Settled) (World.initial state) w) :
    ∀ e ∈ w.state.ended, ∀ c ∈ e.running, (c.sessionId, c.pid) ∈ e.listed :=
  (steps_invariant hchildren hended h).ended

/-! ## Two runs -/

section Schedule

def possible (s : State) : Action → Bool
  | .vault (.startSession _ _ _) => s.sessions.isEmpty
  | .wait pid => s.children.all (·.pid ≠ pid)
  | _ => true

/-- The reply of a statement that does not fail, and the process id 7. -/
def launchReply (s : State) : (a : Action) → Answer a
  | .vault (.runningSessions id) => runningSessions s.sessions id
  | .vault a => plainReply s.vault a
  | .spawn _ _ => (7 : Int)
  | .setSessionPid _ _ _ | .wait _ | .endSession _ | .exit _ | .returned _ _ => ()

def nextReply (s : State) (a : Action) : Option (Answer a × State) :=
  if possible s a then some (launchReply s a, effect s a (.ok (launchReply s a))) else none

theorem replies_plain (s : AccessGrants.State) (a : AccessGrants.Action) :
    AccessGrants.Replies s a (.ok (plainReply s a)) :=
  (@AccessGrants.exec_reply (fun _ => []) s a _ rfl).1

theorem exec_nextReply {formatMicros : Int → Str} (s : State) (a : Action) (x : Answer a × State)
    (h : nextReply s a = some x) : (system formatMicros).exec s a (.ok x.1) x.2 := by
  unfold nextReply at h
  split_ifs at h with hpossible
  obtain rfl := Option.some.inj h
  refine ⟨?_, rfl⟩
  match a with
  | .vault (.startSession _ _ _) =>
      have hnil : s.sessions = [] := by simpa [possible] using hpossible
      exact ⟨replies_plain s.vault (.startSession _ _ _), by simp [hnil]⟩
  | .vault (.runningSessions id) => exact rfl
  | .wait pid =>
      intro c hc
      simpa using List.all_eq_true.1 hpossible c hc
  | .spawn _ _ | .setSessionPid _ _ _ | .endSession _ | .exit _ | .returned _ _ => trivial
  | .vault .now => exact replies_plain s.vault .now
  | .vault (.getGrant id) => exact replies_plain s.vault (.getGrant id)
  | .vault (.projectRowByIdent ident) => exact replies_plain s.vault (.projectRowByIdent ident)
  | .vault (.listMappings p) => exact replies_plain s.vault (.listMappings p)
  | .vault (.consumeLaunch id t) => exact replies_plain s.vault (.consumeLaunch id t)
  | .vault (.decryptValue c) => exact replies_plain s.vault (.decryptValue c)
  | .vault (.audit e p d) => exact replies_plain s.vault (.audit e p d)
  | .vault (.setSessionGrant i g) => exact replies_plain s.vault (.setSessionGrant i g)
  | .vault .budgetCostSource => exact replies_plain s.vault .budgetCostSource
  | .vault (.credentialReport c o) => exact replies_plain s.vault (.credentialReport c o)
  | .vault (.setRevoked id t) => exact replies_plain s.vault (.setRevoked id t)
  | .vault (.answer id x) => exact replies_plain s.vault (.answer id x)
  | .vault (.setClock t) => exact replies_plain s.vault (.setClock t)

end Schedule

/-- A grant of one launch that nobody has used. -/
def launchable : State := ⟨oneLaunch, [], [], []⟩

def run : Op := .run "g1".toList "cmd".toList

/-- The grant is ended between the spawn of the child and the record of its process id: the list is empty and
the child runs on. -/
theorem child_not_listed :
    ∃ w, Steps (Step (system fun _ => []) fun _ _ _ => True) (World.initial launchable) w ∧
      ∃ e ∈ w.state.ended, ∃ c ∈ e.running, (c.sessionId, c.pid) ∉ e.listed := by
  obtain ⟨w, hrun, hleft⟩ := Option.map_eq_some_iff.1 (by decide :
    ((World.initial launchable).schedule (system fun _ => []) (fun _ _ _ => True) nextReply
      [.start run, .act 0 11, .start (.endGrant "g1".toList), .act 1 7]).map (·.state.ended)
        = some [⟨[], [⟨7, "g1".toList, "s1".toList⟩]⟩])
  refine ⟨w, World.steps_schedule exec_nextReply hrun, _, hleft ▸ List.mem_singleton_self _, _,
    List.mem_singleton_self _, by simp⟩

def Phase.unsettledGrant : Phase → Option Str
  | .consumed g | .started g _ | .running g _ _ false | .lost g _ _ => some g
  | _ => none

theorem unsettledGrant_eq_some {ph : Phase} {id : Str} : ph.unsettledGrant = some id ↔ ph.Unsettled id := by
  unfold Phase.Unsettled Phase.Launching
  cases ph with
  | running g s p recorded => cases recorded <;> simp [Phase.unsettledGrant]
  | _ => simp [Phase.unsettledGrant]

instance (ph : Phase) (id : Str) : Decidable (ph.Unsettled id) :=
  decidable_of_iff _ unsettledGrant_eq_some

instance (w : World State Answer CoreError Unit) (p : Process) (e : Event Answer CoreError) :
    Decidable (Settled w p e) :=
  decidable_of_iff ((e.1.lists).all (fun id => decide (∀ q ∈ w.procs, ¬ (phase q).Unsettled id)) = true)
    (by cases hlists : e.1.lists <;> simp [Settled, hlists])

/-- The grant is ended when the process id is recorded, and the child is listed. -/
theorem listed_when_settled_one :
    ∃ w, Steps (Step (system fun _ => []) Settled) (World.initial launchable) w ∧
      (∀ e ∈ w.state.ended, ∀ c ∈ e.running, (c.sessionId, c.pid) ∈ e.listed) ∧
      w.state.ended = [⟨[("s1".toList, 7)], [⟨7, "g1".toList, "s1".toList⟩]⟩] := by
  obtain ⟨w, hrun, hleft⟩ := Option.map_eq_some_iff.1 (by decide :
    ((World.initial launchable).schedule (system fun _ => []) Settled nextReply
      [.start run, .act 0 12, .start (.endGrant "g1".toList), .act 1 7]).map (·.state.ended)
        = some [⟨[("s1".toList, 7)], [⟨7, "g1".toList, "s1".toList⟩]⟩])
  have hsteps : Steps (Step (system fun _ => []) Settled) (World.initial launchable) w :=
    World.steps_schedule exec_nextReply hrun
  exact ⟨w, hsteps, listed_when_settled (fun _ => []) rfl rfl hsteps, hleft⟩

end Tethra.GrantLaunch
