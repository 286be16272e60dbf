import Tethra.Gateway.RouteTrust
import Tethra.Lib.Runs

set_option autoImplicit false

/-! # Following the database (`RouteState` of `gateway/src/routes.rs`)

The poll reads SQLite's `data_version` on a connection of its own and reloads the snapshot when the
version differs from the watermark. Every access to the database is one step: commits of other
connections fall between any two of them, and any of them can fail. The watermark is stored before the
reload, so a reload that fails after that is not repeated (`poll_not_converges`). -/

namespace Tethra.Gateway

open Runs

/-- The polling connection: the commits it has seen, and the version that it reports. -/
structure PollConn where
  seen : Nat
  version : Int
  deriving DecidableEq, Repr

/-- `PRAGMA data_version`: another value after another connection's commit, else the same. -/
def PollConn.read (c : PollConn) (commits : Nat) : PollConn :=
  if c.seen = commits then c else ⟨commits, c.version + 1⟩

/-- Where the poll is: at the version check, establishing a connection, reading its first version, or
    in the reload, with what the reload has read so far. -/
inductive PollPhase where
  | idle
  | reconnecting
  | firstVersion
  | opening
  | opened
  | identified (vaultId : Str)
  | routed (table : RouteTable)
  deriving DecidableEq, Repr

structure RouteState where
  db : RouteDb
  commits : Nat
  pollConn : Option PollConn
  lastDataVersion : Int
  table : RouteTable
  degraded : Bool
  phase : PollPhase
  deriving DecidableEq, Repr

/-- `RouteState::new`: an empty snapshot and an initial reload. -/
def RouteState.new (db : RouteDb) : RouteState := ⟨db, 0, none, -1, .empty, false, .opening⟩

/-- What happens next: a commit of another connection, or the poll's next access succeeds or fails. A
    connection that opens reports the version `v` first. -/
inductive PollEvent where
  | commit (db : RouteDb)
  | answer (v : Int)
  | failure
  deriving DecidableEq, Repr

/-- A failed reload keeps the snapshot. -/
def RouteState.degrade (s : RouteState) : RouteState := { s with degraded := true, phase := .idle }

/-- The version check of `reload_if_changed`. -/
def RouteState.checkVersion (s : RouteState) : RouteState :=
  match s.pollConn with
  | none => { s with phase := .reconnecting }
  | some c =>
      let c := c.read s.commits
      if s.lastDataVersion = c.version then { s with pollConn := some c }
      else { s with pollConn := some c, lastDataVersion := c.version, phase := .opening }

def RouteState.storeFirstVersion (s : RouteState) : RouteState :=
  match s.pollConn with
  | none => { s with phase := .opening }
  | some c =>
      let c := c.read s.commits
      { s with pollConn := some c, lastDataVersion := c.version, phase := .opening }

section Poll

variable (env : RouteEnv) (macKey : Option (List UInt8))

/-- The next access succeeds; in `reload` it is one of those of `load_route_table`. -/
def RouteState.answer (s : RouteState) (v : Int) : RouteState :=
  match s.phase with
  | .idle => s.checkVersion
  | .reconnecting => { s with pollConn := some ⟨s.commits, v⟩, phase := .firstVersion }
  | .firstVersion => s.storeFirstVersion
  | .opening => { s with phase := .opened }
  | .opened =>
      match vaultIdOf s.db with
      | .ok vaultId => { s with phase := .identified vaultId }
      | .error _ => s.degrade
  | .identified vaultId =>
      match env.loadRoutes vaultId macKey s.db.routes with
      | .ok table => { s with phase := .routed table }
      | .error _ => s.degrade
  | .routed table =>
      match table.loadLinks s.db.links with
      | .ok table => { s with table := table, degraded := false, phase := .idle }
      | .error _ => s.degrade

/-- The next access fails. -/
def RouteState.fail (s : RouteState) : RouteState :=
  match s.phase with
  | .idle => { s with phase := .reconnecting }
  | .reconnecting => { s with pollConn := none, phase := .opening }
  | .firstVersion => { s with phase := .opening }
  | _ => s.degrade

def RouteState.step (s : RouteState) : PollEvent → RouteState
  | .commit db => { s with db := db, commits := s.commits + 1 }
  | .answer v => s.answer env macKey v
  | .failure => s.fail

def RouteState.run (s : RouteState) (es : List PollEvent) : RouteState :=
  es.foldl (RouteState.step env macKey) s

/-- The snapshot is the one of the database. -/
def RouteState.Converged (s : RouteState) : Prop :=
  ∀ table, env.loadRouteTable s.db macKey = .ok table → s.table = table

/-- The watermark is not, and will not be, the next version that the connection reports. -/
def RouteState.Apart (s : RouteState) : Prop :=
  ∀ c, s.pollConn = some c → s.lastDataVersion ≠ c.version ∧ s.lastDataVersion ≠ c.version + 1

/-- An access fails only at the version check, while connecting, or when the watermark is apart from
    the polling connection's version anyway. -/
def PollEvent.Harmless (s : RouteState) (e : PollEvent) : Prop :=
  e = .failure → s.phase = .idle ∨ s.phase = .reconnecting ∨ s.Apart

def PollStep (s t : RouteState) : Prop := ∃ e : PollEvent, e.Harmless s ∧ t = s.step env macKey e

/-! ## The watermark -/

/-- What the reload has read so far is the database's. -/
def RouteState.Current (s : RouteState) : Prop :=
  match s.phase with
  | .idle => s.Converged env macKey
  | .identified vaultId => vaultIdOf s.db = .ok vaultId
  | .routed table =>
      ∃ vaultId, vaultIdOf s.db = .ok vaultId ∧
        env.loadRoutes vaultId macKey s.db.routes = .ok table
  | _ => True

/-- The watermark is the connection's version, and what was read since its last commit is the
    database's; or the watermark is apart from it. -/
def RouteState.Tracks (s : RouteState) (c : PollConn) : Prop :=
  (s.lastDataVersion = c.version ∧ (c.seen = s.commits → s.Current env macKey)) ∨
    (s.lastDataVersion ≠ c.version ∧ s.lastDataVersion ≠ c.version + 1)

/-- A poll that has stored the connection's version tracks the connection. -/
def RouteState.Inv (s : RouteState) : Prop :=
  ∀ c, s.pollConn = some c →
    c.seen ≤ s.commits ∧
      (s.phase = .reconnecting ∨ s.phase = .firstVersion ∨ s.Tracks env macKey c)

variable {env : RouteEnv} {macKey : Option (List UInt8)} {s : RouteState}

theorem PollConn.seen_read (c : PollConn) (commits : Nat) : (c.read commits).seen = commits := by
  unfold PollConn.read
  split
  · assumption
  · rfl

theorem inv_new (db : RouteDb) : (RouteState.new db).Inv env macKey := by
  intro c hc
  simp [RouteState.new] at hc

theorem inv_commit (db : RouteDb) (h : s.Inv env macKey) :
    (s.step env macKey (.commit db)).Inv env macKey := by
  intro c hc
  obtain ⟨hseen, hphase⟩ := h c hc
  -- no connection has seen the new commit yet
  have hnew : c.seen ≠ s.commits + 1 := by omega
  refine ⟨Nat.le_succ_of_le hseen, ?_⟩
  rcases hphase with hphase | hphase | ⟨hmark, -⟩ | hapart
  · exact .inl hphase
  · exact .inr (.inl hphase)
  · exact .inr (.inr (.inl ⟨hmark, fun heq => absurd heq hnew⟩))
  · exact .inr (.inr (.inr hapart))

/-- The check at the loop's head: an unchanged version keeps what is current, a changed one is stored
    and the reload starts. -/
theorem inv_checkVersion (hidle : s.phase = .idle) (h : s.Inv env macKey) :
    s.checkVersion.Inv env macKey := by
  unfold RouteState.checkVersion
  split
  · rename_i hnone
    intro c hc
    exact absurd (hnone.symm.trans hc) nofun
  · rename_i c hconn
    obtain ⟨hseen, hphase⟩ := h c hconn
    have htracks : s.Tracks env macKey c := by simpa [hidle] using hphase
    by_cases hsame : c.seen = s.commits
    · have hread : c.read s.commits = c := by simp [PollConn.read, hsame]
      simp only [hread]
      split
      · intro c' hc'
        obtain rfl := Option.some.inj hc'
        exact ⟨hseen, .inr (.inr htracks)⟩
      · intro c' hc'
        obtain rfl := Option.some.inj hc'
        exact ⟨hseen, .inr (.inr (.inl ⟨rfl, fun _ => trivial⟩))⟩
    · have hread : c.read s.commits = ⟨s.commits, c.version + 1⟩ := by
        simp [PollConn.read, hsame]
      have hchanged : s.lastDataVersion ≠ c.version + 1 := by
        rcases htracks with ⟨hmark, -⟩ | ⟨-, hnext⟩
        · omega
        · exact hnext
      simp only [hread, if_neg hchanged]
      intro c' hc'
      obtain rfl := Option.some.inj hc'
      exact ⟨Nat.le_refl _, .inr (.inr (.inl ⟨rfl, fun _ => trivial⟩))⟩

theorem inv_storeFirstVersion : s.storeFirstVersion.Inv env macKey := by
  unfold RouteState.storeFirstVersion
  split
  · rename_i hnone
    intro c hc
    exact absurd (hnone.symm.trans hc) nofun
  · rename_i c hconn
    intro c' hc'
    obtain rfl := Option.some.inj hc'
    refine ⟨(PollConn.seen_read c s.commits).le, .inr (.inr (.inl ⟨rfl, fun _ => trivial⟩))⟩

/-- A step inside the reload keeps the connection and the watermark; what it reads is current when the
    database is the one that the connection has seen. -/
theorem inv_advance {t : RouteState} (h : s.Inv env macKey)
    (hs : s.phase ≠ .reconnecting ∧ s.phase ≠ .firstVersion) (hconn : t.pollConn = s.pollConn)
    (hcommits : t.commits = s.commits) (hlast : t.lastDataVersion = s.lastDataVersion)
    (hcurrent : s.Current env macKey → t.Current env macKey) : t.Inv env macKey := by
  intro c hc
  obtain ⟨hseen, hphase⟩ := h c (hconn ▸ hc)
  have htracks : s.Tracks env macKey c := by simpa [hs.1, hs.2] using hphase
  refine ⟨hcommits ▸ hseen, .inr (.inr ?_)⟩
  rcases htracks with ⟨hmark, hcur⟩ | hapart
  · exact .inl ⟨hlast.trans hmark, fun heq => hcurrent (hcur (heq.trans hcommits))⟩
  · exact .inr (by rw [hlast]; exact hapart)

/-- Where the database itself does not load there is nothing to converge to. -/
theorem converged_of_error {e : CoreError} {t : RouteState}
    (h : env.loadRouteTable t.db macKey = .error e) : t.Converged env macKey := by
  intro table hload
  rw [h] at hload
  simp at hload

theorem loadRouteTable_error_routes {db : RouteDb} {vaultId : Str} {e : CoreError}
    (hvault : vaultIdOf db = .ok vaultId) (h : env.loadRoutes vaultId macKey db.routes = .error e) :
    env.loadRouteTable db macKey = .error e := by
  simp [RouteEnv.loadRouteTable, hvault, h, bind, Except.bind]

theorem loadRouteTable_of_parts {db : RouteDb} {vaultId : Str} {table : RouteTable}
    (hvault : vaultIdOf db = .ok vaultId)
    (h : env.loadRoutes vaultId macKey db.routes = .ok table) :
    env.loadRouteTable db macKey = table.loadLinks db.links := by
  simp [RouteEnv.loadRouteTable, hvault, h, bind, Except.bind]

theorem inv_answer (v : Int) (h : s.Inv env macKey) : (s.answer env macKey v).Inv env macKey := by
  unfold RouteState.answer
  -- one case for each phase in which an answer of the database is awaited
  split
  · rename_i hphase
    exact inv_checkVersion hphase h
  · intro c hc
    obtain rfl := Option.some.inj hc
    exact ⟨Nat.le_refl _, .inr (.inl rfl)⟩
  · exact inv_storeFirstVersion
  · rename_i hphase
    exact inv_advance h (by simp [hphase]) rfl rfl rfl fun _ => trivial
  · rename_i hphase
    split
    · rename_i vaultId hvault
      exact inv_advance h (by simp [hphase]) rfl rfl rfl fun _ => hvault
    · rename_i e hvault
      refine inv_advance h (by simp [hphase]) rfl rfl rfl fun _ => ?_
      refine converged_of_error (e := e) ?_
      simp [RouteState.degrade, RouteEnv.loadRouteTable, hvault, bind, Except.bind]
  · rename_i vaultId hphase
    split
    · rename_i table hload
      refine inv_advance h (by simp [hphase]) rfl rfl rfl fun hcur => ?_
      have hvault : vaultIdOf s.db = .ok vaultId := by simpa [RouteState.Current, hphase] using hcur
      exact ⟨vaultId, hvault, hload⟩
    · rename_i e hload
      refine inv_advance h (by simp [hphase]) rfl rfl rfl fun hcur => ?_
      have hvault : vaultIdOf s.db = .ok vaultId := by simpa [RouteState.Current, hphase] using hcur
      exact converged_of_error (loadRouteTable_error_routes hvault hload)
  · rename_i table hphase
    split
    · rename_i table' hlinks
      refine inv_advance h (by simp [hphase]) rfl rfl rfl fun hcur => ?_
      obtain ⟨vaultId, hvault, hload⟩ : ∃ vaultId, vaultIdOf s.db = .ok vaultId ∧
          env.loadRoutes vaultId macKey s.db.routes = .ok table := by
        simpa [RouteState.Current, hphase] using hcur
      intro table'' hload'
      rw [loadRouteTable_of_parts hvault hload, hlinks] at hload'
      exact Except.ok.inj hload'
    · rename_i e hlinks
      refine inv_advance h (by simp [hphase]) rfl rfl rfl fun hcur => ?_
      obtain ⟨vaultId, hvault, hload⟩ : ∃ vaultId, vaultIdOf s.db = .ok vaultId ∧
          env.loadRoutes vaultId macKey s.db.routes = .ok table := by
        simpa [RouteState.Current, hphase] using hcur
      exact converged_of_error ((loadRouteTable_of_parts hvault hload).trans hlinks)

/-- With the watermark apart, any phase tracks the connection. -/
theorem inv_of_apart {t : RouteState} (h : s.Inv env macKey) (hapart : s.Apart)
    (hconn : t.pollConn = s.pollConn) (hcommits : t.commits = s.commits)
    (hlast : t.lastDataVersion = s.lastDataVersion) : t.Inv env macKey := by
  intro c hc
  rw [hconn] at hc
  refine ⟨hcommits ▸ (h c hc).1, .inr (.inr (.inr ?_))⟩
  rw [hlast]
  exact hapart c hc

theorem inv_fail (hharmless : PollEvent.failure.Harmless s) (h : s.Inv env macKey) :
    s.fail.Inv env macKey := by
  rcases hharmless rfl with hphase | hphase | hapart
  · simp only [RouteState.fail, hphase]
    intro c hc
    exact ⟨(h c hc).1, .inl rfl⟩
  · simp only [RouteState.fail, hphase]
    intro c hc
    simp at hc
  · unfold RouteState.fail
    split
    · intro c hc
      exact ⟨(h c hc).1, .inl rfl⟩
    · intro c hc
      simp at hc
    · exact inv_of_apart h hapart rfl rfl rfl
    · exact inv_of_apart h hapart rfl rfl rfl

/-- Every step whose failures are harmless keeps the invariant. -/
theorem inv_step {t : RouteState} (h : s.Inv env macKey) (hstep : PollStep env macKey s t) :
    t.Inv env macKey := by
  obtain ⟨e, hharmless, rfl⟩ := hstep
  match e, hharmless with
  | .commit db, _ => exact inv_commit db h
  | .answer v, _ => exact inv_answer v h
  | .failure, hharmless => exact inv_fail hharmless h

theorem inv_of_steps {db : RouteDb} (h : Steps (PollStep env macKey) (.new db) s) :
    s.Inv env macKey :=
  Steps.invariant (I := RouteState.Inv env macKey) (fun _ _ hs hstep => inv_step hs hstep)
    (inv_new db) h

/-! ## A poll on a readable database -/

/-- The poll has still to read the connection's version, or its watermark is the one of the database
    as it is. -/
def RouteState.Marking (s : RouteState) : Prop :=
  s.phase = .reconnecting ∨
    ∃ c, s.pollConn = some c ∧ c.seen = s.commits ∧
      (s.phase = .firstVersion ∨ s.lastDataVersion = c.version)

theorem marking_checkVersion : s.checkVersion.Marking := by
  unfold RouteState.checkVersion
  split
  · exact .inl rfl
  · rename_i c hconn
    have hseen := PollConn.seen_read c s.commits
    dsimp only
    split
    · rename_i hmark
      exact .inr ⟨_, rfl, hseen, .inr hmark⟩
    · exact .inr ⟨_, rfl, hseen, .inr rfl⟩

theorem marking_answer (v : Int) (h : s.Marking) : (s.answer env macKey v).Marking := by
  unfold RouteState.answer
  split
  · exact marking_checkVersion
  · exact .inr ⟨_, rfl, rfl, .inl rfl⟩
  · rename_i hphase
    obtain hreconnecting | ⟨c, hconn, -, -⟩ := h
    · simp [hphase] at hreconnecting
    · simp only [RouteState.storeFirstVersion, hconn]
      exact .inr ⟨_, rfl, PollConn.seen_read c s.commits, .inr rfl⟩
  all_goals
    rename_i hphase
    obtain hreconnecting | ⟨c, hconn, hseen, hmark⟩ := h
    · simp [hphase] at hreconnecting
    have hmark' : s.lastDataVersion = c.version := by simpa [hphase] using hmark
  · exact .inr ⟨c, hconn, hseen, .inr hmark'⟩
  all_goals
    split
    · exact .inr ⟨c, hconn, hseen, .inr hmark'⟩
    · exact .inr ⟨c, hconn, hseen, .inr hmark'⟩

/-- Accesses that all succeed keep the invariant, and finish what the version check has begun. -/
theorem run_answers {es : List PollEvent} (hread : ∀ e ∈ es, ∃ v, e = .answer v)
    (hinv : s.Inv env macKey) (hmark : s.Marking) :
    (s.run env macKey es).Inv env macKey ∧ (s.run env macKey es).Marking := by
  induction es generalizing s with
  | nil => exact ⟨hinv, hmark⟩
  | cons e es ih =>
      obtain ⟨v, rfl⟩ := hread e (List.mem_cons_self ..)
      exact ih (fun e' he' => hread e' (List.mem_cons_of_mem _ he')) (inv_answer v hinv)
        (marking_answer v hmark)

/-- At the version check, with the watermark of the database as it is, the snapshot is current. -/
theorem converged_of_marking (hidle : s.phase = .idle) (hinv : s.Inv env macKey)
    (hmark : s.Marking) : s.Converged env macKey := by
  obtain hreconnecting | ⟨c, hconn, hseen, hmark⟩ := hmark
  · simp [hidle] at hreconnecting
  obtain ⟨-, hphase⟩ := hinv c hconn
  have hlast : s.lastDataVersion = c.version := by simpa [hidle] using hmark
  have htracks : s.Tracks env macKey c := by simpa [hidle] using hphase
  rcases htracks with ⟨-, hcurrent⟩ | ⟨hapart, -⟩
  · simpa [RouteState.Current, hidle] using hcurrent hseen
  · exact absurd hlast hapart

/-- In every run whose failures are harmless, a poll on a readable database, without a commit during
    it, ends with the snapshot of the database. -/
theorem poll_converges {db : RouteDb} (hrun : Steps (PollStep env macKey) (.new db) s)
    (hidle : s.phase = .idle) {poll : List PollEvent} (hne : poll ≠ [])
    (hread : ∀ e ∈ poll, ∃ v, e = .answer v) (hend : (s.run env macKey poll).phase = .idle) :
    (s.run env macKey poll).Converged env macKey := by
  obtain ⟨e, rest, rfl⟩ := List.exists_cons_of_ne_nil hne
  obtain ⟨v, rfl⟩ := hread e (List.mem_cons_self ..)
  have hfirst : s.step env macKey (.answer v) = s.checkVersion := by
    simp [RouteState.step, RouteState.answer, hidle]
  have hinv : (s.step env macKey (.answer v)).Inv env macKey := inv_answer v (inv_of_steps hrun)
  have hrest : ∀ e ∈ rest, ∃ v, e = .answer v := fun e he => hread e (List.mem_cons_of_mem _ he)
  obtain ⟨hinv', hmark'⟩ := run_answers hrest hinv (hfirst ▸ marking_checkVersion)
  exact converged_of_marking hend hinv' hmark'

end Poll

/-- The events of a reload that succeeds. -/
def reloadAnswers : List PollEvent := [.answer 0, .answer 0, .answer 0, .answer 0]

/-- The initial reload, and a poll that connects and reloads. -/
def firstPolls : List PollEvent :=
  reloadAnswers ++ [.answer 0, .answer 1, .answer 0] ++ reloadAnswers

/-- Without failures the steps are those of the model's runs. -/
theorem steps_run_answers {env : RouteEnv} {macKey : Option (List UInt8)} (es : List PollEvent)
    (hes : ∀ e ∈ es, e ≠ .failure) (s : RouteState) :
    Steps (PollStep env macKey) s (s.run env macKey es) := by
  induction es generalizing s with
  | nil => exact Relation.ReflTransGen.refl
  | cons e es ih =>
      have hstep : PollStep env macKey s (s.step env macKey e) :=
        ⟨e, fun he => absurd he (hes e (List.mem_cons_self ..)), rfl⟩
      exact Relation.ReflTransGen.head hstep
        (ih (fun e' he' => hes e' (List.mem_cons_of_mem _ he')) _)

/-- After a commit the next poll has the new snapshot. -/
theorem poll_converges_after_commit :
    (((RouteState.new openAiDb).run openAiEnv none
      (firstPolls ++ [.commit { openAiDb with routes := [] }])).run openAiEnv none
        (.answer 0 :: reloadAnswers)).Converged openAiEnv none :=
  poll_converges (steps_run_answers _ (by decide) _) (by decide) (by decide)
    (by simp [reloadAnswers]) (by decide)

/-- A reload that fails after its poll has stored the new version is not repeated: the next poll, on a
    readable database, keeps a snapshot that is not the database's. -/
theorem poll_not_converges :
    let s := (RouteState.new openAiDb).run openAiEnv none
      (firstPolls ++ [.commit { openAiDb with routes := [] }, .answer 0, .failure])
    let t := s.run openAiEnv none [.answer 0]
    s.phase = .idle ∧ t.phase = .idle ∧ ¬t.Converged openAiEnv none := by
  refine ⟨by decide, by decide, ?_⟩
  intro h
  have hload := h .empty (by decide)
  revert hload
  decide

end Tethra.Gateway
