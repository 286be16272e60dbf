import Tethra.Core.Migrations
import Tethra.Lib.Interleave

set_option autoImplicit false

/-! # Migrating one database from several processes (`core/src/db.rs`)

`migrate` reads the version outside the transaction that applies a script. A process that was overtaken
runs a script again: it fails, unless the script changes nothing when it is run again. The fourteenth does
not, and its transaction then commits its own version over a newer one. When no transaction of it runs on
a schema that has it, the schema is always the one of its version, the version never decreases, and the
processes leave the current one (`schema_kept_unrepeated`). -/

namespace Tethra.Migrations

open Interleave Runs

inductive Action where
  | userVersion
  /-- Run a script, set its version and commit. -/
  | transaction (m : Migration)

abbrev Answer : Action → Type
  | .userVersion => Nat
  | .transaction _ => Unit

abbrev Prog := Interleave.Prog Answer CoreError Unit

abbrev call (a : Action) : Interleave.Prog Answer CoreError (Answer a) := Interleave.Prog.call a

def migrateLoop : List Migration → Prog
  | [] => .ret ()
  | m :: ms => do
      let current ← call .userVersion
      if m.version ≤ current then migrateLoop ms
      else do
        call (.transaction m)
        migrateLoop ms

/-- A database of a newer build is not written. -/
def migrateWith (ms : List Migration) : Prog := do
  let found ← call .userVersion
  let supported := (ms.getLast?.map Migration.version).getD 0
  if supported < found then .throw (.schemaTooNew found supported) else migrateLoop ms

def migrate : Prog := migrateWith migrations

structure Database where
  schema : Schema
  version : Nat

/-- Open the database only at this build's version. -/
def openAtCurrentVersion (db : Database) : Except CoreError Database :=
  if currentSchemaVersion < db.version then
    .error (.schemaTooNew db.version currentSchemaVersion)
  else if db.version < currentSchemaVersion then
    .error (.schemaNotCurrent db.version currentSchemaVersion)
  else .ok db

/-- A transaction fails, and changes nothing, when its script does, or when another process has committed
    the version before it and the database is busy with that. -/
def Exec (db : Database) : (a : Action) → Except CoreError (Answer a) → Database → Prop
  | .userVersion, .ok version, db' => version = db.version ∧ db' = db
  | .userVersion, .error _, _ => False
  | .transaction m, .ok _, db' =>
      ∃ schema, runScript m.sql db.schema = some schema ∧ db' = ⟨schema, m.version⟩
  | .transaction m, .error _, db' =>
      db' = db ∧ (runScript m.sql db.schema = none ∨ m.version ≤ db.version)

/-- Any number of processes that migrate one database. -/
def system : System Database Unit Answer CoreError Unit where
  program _ := migrate
  exec := Exec

abbrev World := Interleave.World Database Answer CoreError Unit

abbrev Process := Proc Answer CoreError Unit

/-- No script that can be run again is committed on a schema that has it. -/
def Unrepeated (w : World) (_ : Process) : Event Answer CoreError → Prop
  | ⟨.transaction m, .ok _⟩ => m.rerunnable = true → w.state.version < m.version
  | _ => True

/-- The schema is the result of the migrations up to the version, once each. -/
def Database.Sound (db : Database) : Prop :=
  db.version ≤ 20 ∧ schemaAt db.version = some db.schema

/-- The process returned, with or without an error. -/
def Ended (p : Process) : Prop := (∃ r, p.prog = some (.ret r)) ∨ ∃ e, p.prog = some (.throw e)

/-! ## What is left of a program -/

/-- Run alone from the version `v`, the program leaves the current version. -/
def Reaches (v : Nat) : Prog → Prop
  | .ret _ => v = 20
  | .throw _ => False
  | .act .userVersion next => ∀ u, v ≤ u → u ≤ 20 → Reaches u (next (.ok u))
  | .act (.transaction m) next =>
      migrations[v]? = some m ∧ Reaches (v + 1) (next (.ok ())) ∧ ∀ e, next (.error e) = .throw e

/-- The program read the version `k`; from what it reads or commits next on, it reaches the current
    version if it is alone. -/
def Resumes (k : Nat) : Prog → Prop
  | .ret _ => True
  | .throw _ => True
  | .act a next => Reaches k (.act a next)

theorem Reaches.resumes {v : Nat} {p : Prog} (h : Reaches v p) : Resumes v p := by
  cases p with
  | ret _ => trivial
  | throw _ => trivial
  | act a next => exact h

theorem reaches_migrateLoop {i : Nat} (hi : i ≤ 20) {v : Nat} (hiv : i ≤ v) (hv : v ≤ 20) :
    Reaches v (migrateLoop (migrations.drop i)) := by
  have hlength : migrations.length = 20 := rfl
  induction hi using Nat.decreasingInduction generalizing v with
  | self =>
      have heq : v = 20 := by omega
      rw [List.drop_of_length_le hlength.le]
      exact heq
  | of_succ i hi ih =>
      obtain ⟨m, hm⟩ : ∃ m, migrations[i]? = some m :=
        ⟨_, List.getElem?_eq_getElem (by omega)⟩
      have hdrop : migrations.drop i = m :: migrations.drop (i + 1) := by
        rw [List.drop_eq_getElem?_toList_append, hm]
        rfl
      have hversion := getElem?_version hm
      rw [hdrop]
      intro u hvu hu
      show Reaches u (if m.version ≤ u then migrateLoop (migrations.drop (i + 1)) else _)
      split
      · exact ih (by omega) hu
      · have heq : u = i := by omega
        subst heq
        exact ⟨hm, ih le_rfl (by omega), fun _ => rfl⟩

theorem reaches_migrate {v : Nat} (hv : v ≤ 20) : Reaches v migrate := by
  intro u hvu hu
  have hsupported : ((migrations.getLast?.map Migration.version).getD 0) = 20 := rfl
  show Reaches u (if _ < u then _ else migrateLoop migrations)
  rw [hsupported, if_neg (by omega)]
  exact reaches_migrateLoop (Nat.zero_le 20) (Nat.zero_le u) hu

/-! ## Unrepeated runs -/

structure Inv (w : World) : Prop where
  sound : w.state.Sound
  resumes : ∀ p ∈ w.procs, ∀ prog, p.prog = some prog → ∃ k ≤ w.state.version, Resumes k prog
  /-- Unless a process crashed, one of them reaches the current version from here. -/
  leads : w.state.version = 20 ∨ w.procs = [] ∨ (∃ p ∈ w.procs, p.prog = none) ∨
    ∃ (i : Nat) (p : Process) (prog : Prog), w.procs[i]? = some p ∧ p.prog = some prog ∧ Reaches w.state.version prog

/-- A transaction that commits does so at the version before its own. -/
theorem Inv.commit {w : World} (h : Inv w) {k : Nat} (hk : k ≤ w.state.version) {m : Migration}
    (hm : migrations[k]? = some m) {schema : Schema} (hrun : runScript m.sql w.state.schema = some schema)
    (hunrepeated : m.rerunnable = true → w.state.version < m.version) :
    w.state.version = k ∧ Database.Sound ⟨schema, k + 1⟩ := by
  obtain ⟨hle, hschema⟩ := h.sound
  have hversion := getElem?_version hm
  have hlt : w.state.version < m.version := by
    by_contra hge
    -- the script was applied before: it can be run again, or it fails
    cases hrerun : m.rerunnable with
    | true => exact hge (hunrepeated hrerun)
    | false =>
        have hfails := runScript_again _ hle m (List.mem_of_getElem? hm) (by omega) hrerun
        rw [hschema, Option.bind_some, hrun] at hfails
        cases hfails
  have heq : w.state.version = k := by omega
  have hlast : k < 20 := (List.getElem?_eq_some_iff.1 hm).1
  refine ⟨heq, hlast, ?_⟩
  rw [heq] at hschema
  rw [schemaAt_next hm, hschema, Option.bind_some, hrun]

/-- The process at `i` goes on with a program that reaches the current version. -/
theorem Inv.advance {w : World} (h : Inv w) {i : Nat} {p : Process} (hp : w.procs[i]? = some p)
    {state : Database} (hsound : state.Sound) (hle : w.state.version ≤ state.version) {next : Prog}
    (hnext : Reaches state.version next) (e : Event Answer CoreError) :
    Inv (w.perform state i (p.perform next e) e) := by
  refine ⟨hsound, ?_, .inr (.inr (.inr ⟨i, p.perform next e, next, ?_, rfl, hnext⟩))⟩
  · intro q hq prog hprog
    rcases List.mem_or_eq_of_mem_set hq with hq | rfl
    · obtain ⟨k, hk, hresumes⟩ := h.resumes q hq prog hprog
      exact ⟨k, hk.trans hle, hresumes⟩
    · obtain rfl := Option.some.inj hprog
      exact ⟨state.version, le_rfl, hnext.resumes⟩
  · exact List.getElem?_set_self (List.getElem?_eq_some_iff.1 hp).1

theorem Inv.step {w w' : World} (h : Inv w) (hstep : Step system Unrepeated w w') :
    Inv w' ∧ w.state.version ≤ w'.state.version := by
  cases hstep with
  | start op =>
      have hreaches : Reaches w.state.version migrate := reaches_migrate h.sound.1
      refine ⟨⟨h.sound, ?_,
        .inr (.inr (.inr ⟨w.procs.length, ⟨some migrate, []⟩, migrate, ?_, rfl, hreaches⟩))⟩, le_rfl⟩
      · intro p hp prog hprog
        rcases List.mem_append.1 hp with hp | hp
        · exact h.resumes p hp prog hprog
        · obtain rfl := List.mem_singleton.1 hp
          obtain rfl := Option.some.inj hprog
          exact ⟨_, le_rfl, hreaches.resumes⟩
      · exact List.getElem?_concat_length
  | crash hp =>
      refine ⟨⟨h.sound, ?_, .inr (.inr (.inl ⟨_, List.mem_set (List.getElem?_eq_some_iff.1 hp).1 _, rfl⟩))⟩,
        le_rfl⟩
      exact forall_procs_set h.resumes fun prog hprog => by cases hprog
  | @act i p a next r state hp hprog hexec hcond =>
      obtain ⟨k, hk, hresumes⟩ := h.resumes p (List.mem_of_getElem? hp) _ hprog
      cases a with
      | userVersion =>
          cases r with
          | error e => exact hexec.elim
          | ok version =>
              obtain ⟨rfl, rfl⟩ := hexec
              exact ⟨h.advance hp h.sound le_rfl (hresumes _ hk h.sound.1) _, le_rfl⟩
      | transaction m =>
          obtain ⟨hm, hreaches, herror⟩ := hresumes
          cases r with
          | ok _ =>
              obtain ⟨schema, hrun, rfl⟩ := hexec
              obtain ⟨heq, hsound⟩ := h.commit hk hm hrun hcond
              have hversion := getElem?_version hm
              rw [hversion]
              exact ⟨h.advance hp hsound (by simp only; omega) hreaches _, by
                show w.state.version ≤ k + 1
                omega⟩
          | error e =>
              obtain ⟨rfl, hfails⟩ := hexec
              refine ⟨⟨h.sound, ?_, ?_⟩, le_rfl⟩
              · intro q hq prog hprog
                rcases List.mem_or_eq_of_mem_set hq with hq | rfl
                · exact h.resumes q hq prog hprog
                · obtain rfl := Option.some.inj hprog
                  rw [herror e]
                  exact ⟨0, Nat.zero_le _, trivial⟩
              · rcases h.leads with hlast | hnone | ⟨q, hq, hcrashed⟩ | ⟨j, q, prog, hq, hqprog, hreach⟩
                · exact .inl hlast
                · rw [hnone] at hp
                  cases hp
                · refine .inr (.inr (.inl ⟨q, ?_, hcrashed⟩))
                  obtain ⟨j, hj⟩ := List.mem_iff_getElem?.1 hq
                  have hij : i ≠ j := by
                    rintro rfl
                    obtain rfl := Option.some.inj (hj.symm.trans hp)
                    rw [hcrashed] at hprog
                    cases hprog
                  exact List.mem_of_getElem? ((List.getElem?_set_ne hij).trans hj)
                · have hij : i ≠ j := by
                    rintro rfl
                    obtain rfl := Option.some.inj (hq.symm.trans hp)
                    obtain rfl := Option.some.inj (hqprog.symm.trans hprog)
                    -- the script applies to the version that is there
                    obtain ⟨hnext, -⟩ := hreach
                    have hversion := getElem?_version hnext
                    have hlast : w.state.version < 20 := (List.getElem?_eq_some_iff.1 hnext).1
                    rcases hfails with hfails | hbusy
                    · have happlies := schemaAt_isSome (show w.state.version + 1 ≤ 20 from hlast)
                      rw [schemaAt_next hnext, h.sound.2, Option.bind_some, hfails] at happlies
                      cases happlies
                    · omega
                  exact .inr (.inr (.inr ⟨j, q, prog, (List.getElem?_set_ne hij).trans hq, hqprog, hreach⟩))

theorem Inv.run {w w' : World} (h : Inv w) (hrun : Steps (Step system Unrepeated) w w') :
    Inv w' ∧ w.state.version ≤ w'.state.version := by
  refine Steps.invariant (I := fun u => Inv u ∧ w.state.version ≤ u.state.version) ?_ ⟨h, le_rfl⟩ hrun
  rintro u u' ⟨hu, hle⟩ hstep
  obtain ⟨hu', hle'⟩ := hu.step hstep
  exact ⟨hu', hle.trans hle'⟩

/-- When no script is committed on a schema that has it, the schema is that of its version, the version
    does not decrease, and processes that all returned leave the current version. -/
theorem schema_kept_unrepeated {v : Nat} {schema : Schema} (hschema : schemaAt v = some schema) {w : World}
    (hrun : Steps (Step system Unrepeated) (World.initial ⟨schema, v⟩) w) :
    w.state.Sound ∧
      (∀ w' : World, Steps (Step system Unrepeated) w w' → w.state.version ≤ w'.state.version) ∧
      (w.procs ≠ [] → (∀ p ∈ w.procs, Ended p) → openAtCurrentVersion w.state = .ok w.state) := by
  have hinitial : Inv (World.initial ⟨schema, v⟩) :=
    ⟨⟨le_of_schemaAt hschema, hschema⟩, fun p hp => (by cases hp), .inr (.inl rfl)⟩
  have hinv := (hinitial.run hrun).1
  refine ⟨hinv.sound, fun w' hrun' => (hinv.run hrun').2, fun hsome hended => ?_⟩
  have hlast : w.state.version = 20 := by
    rcases hinv.leads with hlast | hnone | ⟨p, hp, hcrashed⟩ | ⟨i, p, prog, hp, hprog, hreaches⟩
    · exact hlast
    · exact absurd hnone hsome
    · rcases hended p hp with ⟨r, hr⟩ | ⟨e, he⟩
      · rw [hcrashed] at hr
        cases hr
      · rw [hcrashed] at he
        cases he
    · rcases hended p (List.mem_of_getElem? hp) with ⟨r, hr⟩ | ⟨e, he⟩
      · obtain rfl := Option.some.inj (hprog.symm.trans hr)
        exact hreaches
      · obtain rfl := Option.some.inj (hprog.symm.trans he)
        exact hreaches.elim
  have hcurrent : currentSchemaVersion = 20 := rfl
  rw [openAtCurrentVersion, if_neg (by omega), if_neg (by omega)]

/-! ## An overtaken migration -/

instance (w : World) (p : Process) (e : Event Answer CoreError) : Decidable (Unrepeated w p e) :=
  match e with
  | ⟨.transaction m, .ok _⟩ => inferInstanceAs (Decidable (m.rerunnable = true → w.state.version < m.version))
  | ⟨.transaction _, .error _⟩ | ⟨.userVersion, _⟩ => isTrue trivial

def reply (db : Database) : (a : Action) → Option (Answer a × Database)
  | .userVersion => some (db.version, db)
  | .transaction m => (runScript m.sql db.schema).map fun schema => ((), ⟨schema, m.version⟩)

theorem exec_reply (db : Database) (a : Action) (x : Answer a × Database) (h : reply db a = some x) :
    system.exec db a (.ok x.1) x.2 := by
  cases a with
  | userVersion =>
      obtain rfl := Option.some.inj h
      exact ⟨rfl, rfl⟩
  | transaction m =>
      obtain ⟨schema, hschema, rfl⟩ := Option.map_eq_some_iff.1 h
      exact ⟨schema, hschema, rfl⟩

/-- Two processes, one after the other, from the version 19. -/
theorem schema_kept_unrepeated_two :
    ∃ schema w, schemaAt 19 = some schema ∧
      Steps (Step system Unrepeated) (World.initial ⟨schema, 19⟩) w ∧
      (w.state.Sound ∧
        (∀ w' : World, Steps (Step system Unrepeated) w w' → w.state.version ≤ w'.state.version) ∧
        (w.procs ≠ [] → (∀ p ∈ w.procs, Ended p) → openAtCurrentVersion w.state = .ok w.state)) ∧
      w.state.version = 20 := by
  obtain ⟨schema, hschema, hmap⟩ := Option.bind_eq_some_iff.1 (by decide +kernel :
    ((schemaAt 19).bind fun schema => ((World.initial ⟨schema, 19⟩).schedule system Unrepeated reply
      [.start (), .start (), .act 0 22, .act 1 21]).map fun w => w.state.version) = some 20)
  obtain ⟨w, hrun, hleft⟩ := Option.map_eq_some_iff.1 hmap
  have hsteps : Steps (Step system Unrepeated) (World.initial ⟨schema, 19⟩) w :=
    World.steps_schedule exec_reply hrun
  exact ⟨schema, w, hschema, hsteps,
    schema_kept_unrepeated hschema hsteps, hleft⟩

/-- Two processes read the version 13. One of them migrates to 20; then the other one creates the index
    that is there, and commits the version 14. -/
theorem overtaken_index_sets_version_back :
    ∃ schema w w', schemaAt 13 = some schema ∧
      Steps (Step system fun _ _ _ => True) (World.initial ⟨schema, 13⟩) w ∧
      Steps (Step system fun _ _ _ => True) w w' ∧
      w'.state.version < w.state.version ∧ ¬w'.state.Sound := by
  obtain ⟨schema, hschema, hbind⟩ := Option.bind_eq_some_iff.1 (by decide +kernel :
    ((schemaAt 13).bind fun schema => ((World.initial ⟨schema, 13⟩).schedule system (fun _ _ _ => True)
      reply [.start (), .start (), .act 0 15, .act 1 15, .act 0 13]).bind fun w =>
        (w.schedule system (fun _ _ _ => True) reply [.act 1 1]).map fun w' =>
          (w.state.version, w'.state.version, schemaAt 14 == some w'.state.schema))
      = some (20, 14, false))
  obtain ⟨w, hrun, hmap⟩ := Option.bind_eq_some_iff.1 hbind
  obtain ⟨w', hrun', hleft⟩ := Option.map_eq_some_iff.1 hmap
  simp only [Prod.mk.injEq, beq_eq_false_iff_ne] at hleft
  obtain ⟨hbefore, hafter, hschema'⟩ := hleft
  refine ⟨schema, w, w', hschema, World.steps_schedule exec_reply hrun,
    World.steps_schedule exec_reply hrun', by omega, fun hsound => hschema' ?_⟩
  rw [← hafter]
  exact hsound.2

end Tethra.Migrations
