import Tethra.Core.Error
import Tethra.Lib.Interleave

set_option autoImplicit false

/-! # The session file (`core/src/session.rs`)

`unlock` writes the keys of a session, encrypted, to `session.json`; a command that uses the session
reads the file and writes it back with a later expiry; `lock` deletes it. Each operation is a sequence of
system calls, and those of several processes interleave. Nothing ties the write of a refresh to the file
that it read: the file stays locked, and a session stays its own, when no session is saved and no lock
runs between the two (`lock_final_undisturbed`). -/

namespace Tethra.SessionFiles

open Interleave Runs

abbrev Bytes := List UInt8

/-- `session.json`; the session ids are random, and numbered here by their drawing. -/
structure SessionFile where
  sessionId : Nat
  createdAt : Str
  /-- None: no auto-lock. -/
  expiresAt : Option Str
  ttlMinutes : Nat
  payloadB64 : Str
  deriving DecidableEq

structure SessionPayload where
  vaultKeyHex : Str
  projectKeysHex : List (Str × Str)

/-- The keys of a session, each project key with the hash of its wrapped key. -/
structure SessionKeys where
  vaultKey : Bytes
  projectKeys : List (Str × Bytes × Bytes)

/-- The formats and the cipher. `Raw` is the contents of a file; instants are in nanoseconds. -/
structure Env (Raw Token : Type) where
  parseFile : Raw → Option SessionFile
  renderFile : SessionFile → Raw
  parse_render : ∀ file, parseFile (renderFile file) = some file
  parseTime : Str → Option Nat
  timeText : Nat → Str
  base64Decode : Str → Option Bytes
  base64Encode : Bytes → Str
  hexDecode : Str → Option Bytes
  hexEncode : Bytes → Str
  /-- Under the token, and bound to the session id. -/
  decrypt : Token → Nat → Bytes → Option Str
  encrypt : Token → Nat → Str → Except CoreError Bytes
  parsePayload : Str → Option SessionPayload
  renderPayload : SessionPayload → Str

variable {Raw Token : Type}

/-- The operation that renames or removes; the file system does not see it. -/
inductive Caller where
  | save | loadAndRefresh | destroy
  deriving DecidableEq

inductive Action (Raw : Type) where
  | newSessionId
  | now
  | readFile
  | writeTemp (contents : Raw)
  | removeTemp
  | rename (caller : Caller) (contents : Raw)
  | removeFile (caller : Caller)

/-- What is read from the file; no program looks at `turn`, the number of saves and locks before. -/
structure Reading (Raw : Type) where
  raw : Raw
  turn : Nat

/-- The replies. A rename and a removal also say which file they put away, which no program looks at. -/
abbrev Answer : Action Raw → Type
  | .newSessionId => Nat
  | .now => Nat
  | .readFile => Option (Reading Raw)
  | .writeTemp _ => Unit
  | .removeTemp => Unit
  | .rename _ _ => Option Raw
  | .removeFile _ => Option Raw

abbrev Prog (Raw : Type) := Interleave.Prog (@Answer Raw) CoreError

abbrev call (a : Action Raw) : Prog Raw (Answer a) := Interleave.Prog.call a

/-! ## The operations -/

def keyLen : Nat := 32

section Operations

variable (env : Env Raw Token)

def expiryFromNow (now ttlMinutes : Nat) : Option Str :=
  if ttlMinutes = 0 then none else some (env.timeText (now + ttlMinutes * 60 * 1000000000))

/-- Write a temporary sibling, then rename it over the session file. -/
def writePrivate (caller : Caller) (contents : Raw) : Prog Raw Unit := do
  call (.writeTemp contents)
  match ← (call (.rename caller contents)).attempt with
  | .ok _ => return
  | .error e =>
      let _ ← (call .removeTemp).attempt
      .throw e

def payloadOf (keys : SessionKeys) : SessionPayload :=
  ⟨env.hexEncode keys.vaultKey,
    keys.projectKeys.map fun (id, key, wrapHash) => (id, env.hexEncode (key ++ wrapHash))⟩

def save (token : Token) (keys : SessionKeys) (ttlMinutes : Nat) : Prog Raw Unit := do
  let sessionId ← call .newSessionId
  match env.encrypt token sessionId (env.renderPayload (payloadOf env keys)) with
  | .error e => .throw e
  | .ok envelope =>
      let createdAt ← call .now
      let now ← call .now
      writePrivate .save (env.renderFile
        ⟨sessionId, env.timeText createdAt, expiryFromNow env now ttlMinutes, ttlMinutes,
          env.base64Encode envelope⟩)

/-- An expired session is deleted. -/
def checkExpiry (file : SessionFile) : Prog Raw Unit :=
  match file.expiresAt with
  | none => return
  | some expiresAt =>
      match env.parseTime expiresAt with
      | none => .throw .sessionInvalid
      | some expires => do
          let now ← call .now
          if expires ≤ now then
            let _ ← (call (.removeFile .loadAndRefresh)).attempt
            .throw .sessionExpired
          else return

/-- A project key and its hash; an entry of another length is dropped. -/
def splitProjectKey (entry : Str × Bytes) : Option (Str × Bytes × Bytes) :=
  if entry.2.length = keyLen + 32 then some (entry.1, entry.2.take keyLen, entry.2.drop keyLen)
  else none

def openPayload (token : Token) (file : SessionFile) : Option SessionKeys := do
  let envelope ← env.base64Decode file.payloadB64
  let plaintext ← env.decrypt token file.sessionId envelope
  let payload ← env.parsePayload plaintext
  let vaultKey ← env.hexDecode payload.vaultKeyHex
  let entries ← payload.projectKeysHex.mapM fun (id, keyHex) => do
    let bytes ← env.hexDecode keyHex
    return (id, bytes)
  return ⟨vaultKey, entries.filterMap splitProjectKey⟩

def loadAndRefresh (token : Token) : Prog Raw SessionKeys := do
  match ← call .readFile with
  | none => .throw .sessionMissing
  | some reading =>
      match env.parseFile reading.raw with
      | none => .throw .sessionInvalid
      | some file => do
          checkExpiry env file
          match openPayload env token file with
          | none => .throw .sessionInvalid
          | some keys => do
              let now ← call .now
              writePrivate .loadAndRefresh
                (env.renderFile { file with expiresAt := expiryFromNow env now file.ttlMinutes })
              return keys

end Operations

/-- Whether a session file existed. -/
def destroy : Prog Raw Bool := do
  let removed ← call (.removeFile .destroy)
  return removed.isSome

inductive Op (Token : Type) where
  | save (token : Token) (keys : SessionKeys) (ttlMinutes : Nat)
  | loadAndRefresh (token : Token)
  | destroy

def program (env : Env Raw Token) : Op Token → Prog Raw Unit
  | .save token keys ttlMinutes => save env token keys ttlMinutes
  | .loadAndRefresh token => do
      let _ ← loadAndRefresh env token
  | .destroy => do
      let _ ← destroy

/-! ## The data directory -/

/-- The session file. `drawn` counts the session ids; `lockedAt` is their number when a lock last
    returned, and `turn` the number of saves and locks. -/
structure State (Raw : Type) where
  file : Option Raw
  drawn : Nat
  lockedAt : Option Nat
  turn : Nat

/-- A reply of an action and the state behind it; a call that fails changes nothing. -/
def Exec (s : State Raw) : (a : Action Raw) → Except CoreError (Answer a) → State Raw → Prop
  | .newSessionId, .ok id, s' => id = s.drawn ∧ s' = { s with drawn := s.drawn + 1 }
  | .now, .ok _, s' => s' = s
  | .readFile, .ok reading, s' => reading = s.file.map (⟨·, s.turn⟩) ∧ s' = s
  | .writeTemp _, .ok _, s' => s' = s
  | .removeTemp, .ok _, s' => s' = s
  | .rename .save contents, .ok replaced, s' =>
      replaced = s.file ∧ s' = { s with file := some contents, turn := s.turn + 1 }
  | .rename _ contents, .ok replaced, s' => replaced = s.file ∧ s' = { s with file := some contents }
  | .removeFile .destroy, .ok removed, s' =>
      removed = s.file ∧ s' = ⟨none, s.drawn, some s.drawn, s.turn + 1⟩
  | .removeFile _, .ok removed, s' => removed = s.file ∧ s' = { s with file := none }
  | _, .error _, s' => s' = s

def system (env : Env Raw Token) : System (State Raw) (Op Token) (@Answer Raw) CoreError Unit where
  program := program env
  exec := Exec

/-! ## What a process knows -/

/-- The session id that a process drew, and the file that it read. -/
structure Knows (Raw : Type) where
  drawn : Option Nat
  reading : Option (Reading Raw)

def Knows.start : Knows Raw := ⟨none, none⟩

def Knows.next (k : Knows Raw) : (a : Action Raw) → Except CoreError (Answer a) → Knows Raw
  | .newSessionId, .ok id => { k with drawn := some id }
  | .readFile, .ok reading => { k with reading }
  | _, _ => k

section Knowledge

variable (env : Env Raw Token)

/-- The session that a file holds. -/
def sessionOf (raw : Raw) : Option Nat := (env.parseFile raw).map SessionFile.sessionId

/-- A save writes the session that it drew, a refresh the one that it read. -/
def Knows.Allowed (k : Knows Raw) : Action Raw → Prop
  | .newSessionId => k.reading = none
  | .readFile => k.reading = none
  | .rename .save contents =>
      k.reading = none ∧ ∃ id, k.drawn = some id ∧ sessionOf env contents = some id
  | .rename .loadAndRefresh contents =>
      ∃ reading id, k.reading = some reading ∧ sessionOf env reading.raw = some id ∧
        sessionOf env contents = some id
  | .rename .destroy _ => False
  | .removeFile .save => False
  | .removeFile .loadAndRefresh => k.reading.isSome
  | .removeFile .destroy => k.reading = none
  | _ => True

def discipline : Discipline (@Answer Raw) CoreError (Knows Raw) where
  allowed := Knows.Allowed env
  next := Knows.next

theorem obeys_writePrivate {caller : Caller} {contents : Raw} {k : Knows Raw}
    (h : k.Allowed env (.rename caller contents)) :
    Obeys (discipline env) (writePrivate caller contents) k fun k' _ => k' = k := by
  refine Obeys.call_bind trivial (fun _ => ?_) fun _ => rfl
  have hrename : Obeys (discipline env) (call (.rename caller contents)).attempt k
      fun k' _ => k' = k := Obeys.attempt (Obeys.call h fun _ => rfl)
  refine hrename.bind ?_ fun _ _ hk => hk
  rintro k' (e | replaced) hk
  · rw [hk]
    have hremove : Obeys (discipline env) (call (.removeTemp : Action Raw)).attempt k
        fun k' _ => k' = k := Obeys.attempt (Obeys.call trivial fun _ => rfl)
    exact hremove.bind (fun _ _ hk => hk) fun _ _ hk => hk
  · exact hk

theorem sessionOf_render (file : SessionFile) :
    sessionOf env (env.renderFile file) = some file.sessionId := by
  rw [sessionOf, env.parse_render]
  rfl

theorem obeys_save (token : Token) (keys : SessionKeys) (ttlMinutes : Nat) :
    Obeys (discipline env) (save env token keys ttlMinutes) Knows.start fun _ _ => True := by
  refine Obeys.call_bind rfl (fun id => ?_) fun _ => trivial
  split
  · trivial
  · refine Obeys.call_bind trivial (fun createdAt => ?_) fun _ => trivial
    refine Obeys.call_bind trivial (fun now => ?_) fun _ => trivial
    refine (obeys_writePrivate env ?_).mono fun _ _ _ => trivial
    exact ⟨rfl, id, rfl, sessionOf_render env _⟩

theorem obeys_checkExpiry (file : SessionFile) {k : Knows Raw} (h : k.reading.isSome) :
    Obeys (discipline env) (checkExpiry env file) k fun k' _ => k' = k := by
  unfold checkExpiry
  split
  · rfl
  · split
    · rfl
    · refine Obeys.call_bind trivial (fun now => ?_) fun _ => rfl
      split
      · have hremove : Obeys (discipline env) (call (.removeFile .loadAndRefresh)).attempt k
            fun k' _ => k' = k := Obeys.attempt (Obeys.call h fun _ => rfl)
        exact hremove.bind (fun _ _ hk => hk) fun _ _ hk => hk
      · rfl

theorem obeys_loadAndRefresh (token : Token) :
    Obeys (discipline env) (loadAndRefresh env token) Knows.start fun _ _ => True := by
  refine Obeys.call_bind rfl (fun reading => ?_) fun _ => trivial
  cases reading with
  | none => trivial
  | some reading =>
      dsimp only
      split
      · trivial
      · rename_i file hfile
        refine (obeys_checkExpiry env file (by rfl)).bind ?_ fun _ _ _ => trivial
        rintro _ _ rfl
        split
        · trivial
        · refine Obeys.call_bind trivial (fun now => ?_) fun _ => trivial
          refine (obeys_writePrivate env ?_).bind (fun _ _ _ => trivial) fun _ _ _ => trivial
          have hread : sessionOf env reading.raw = some file.sessionId := by rw [sessionOf, hfile]; rfl
          exact ⟨reading, file.sessionId, rfl, hread, sessionOf_render env _⟩

theorem obeys_program (op : Op Token) :
    Obeys (discipline env) (program env op) Knows.start fun _ _ => True := by
  cases op with
  | save token keys ttlMinutes => exact obeys_save env token keys ttlMinutes
  | loadAndRefresh token =>
      exact (obeys_loadAndRefresh env token).bind (fun _ _ _ => trivial) fun _ _ _ => trivial
  | destroy =>
      have hdestroy : Obeys (discipline env) destroy Knows.start fun _ _ => True :=
        Obeys.call_bind rfl (fun _ => trivial) fun _ => trivial
      exact hdestroy.bind (fun _ _ _ => trivial) fun _ _ _ => trivial

end Knowledge

/-! ## Undisturbed runs -/

abbrev Process (Raw : Type) := Proc (@Answer Raw) CoreError Unit

/-- The session id that the process drew. -/
def drawnId (p : Process Raw) : Option Nat :=
  (p.history.foldl (fun k e => Knows.next k e.1 e.2) Knows.start).drawn

/-- What the process read from the session file. -/
def reading (p : Process Raw) : Option (Reading Raw) :=
  (p.history.foldl (fun k e => Knows.next k e.1 e.2) Knows.start).reading

/-- A refresh writes, or removes a file, while no session was saved and no lock ran since it read, and a
    save writes while no lock ran since it began. -/
def Undisturbed (w : World (State Raw) (@Answer Raw) CoreError Unit) (p : Process Raw) :
    Event (@Answer Raw) CoreError → Prop
  | ⟨.rename .loadAndRefresh _, .ok _⟩ => ∀ r ∈ reading p, w.state.turn = r.turn
  | ⟨.removeFile .loadAndRefresh, .ok (some _)⟩ => ∀ r ∈ reading p, w.state.turn = r.turn
  | ⟨.rename .save _, .ok _⟩ => ∀ id ∈ drawnId p, ∀ n ∈ w.state.lockedAt, n ≤ id
  | _ => True

section Invariant

variable (env : Env Raw Token)

/-- Behind a lock, a file there is of a session whose save began after it. -/
def Locked (s : State Raw) : Prop :=
  ∀ n, s.lockedAt = some n → ∀ raw, s.file = some raw → ∃ id, sessionOf env raw = some id ∧ n ≤ id

/-- The file that a refresh replaced or removed. -/
def putAway : Event (@Answer Raw) CoreError → Option Raw
  | ⟨.rename .loadAndRefresh _, .ok replaced⟩ => replaced
  | ⟨.removeFile .loadAndRefresh, .ok removed⟩ => removed
  | _ => none

/-- The files that a refresh replaced or removed are of the session that it read. -/
def OwnSession (p : Process Raw) : Prop :=
  ∀ e ∈ p.history, ∀ raw, putAway e = some raw →
    ∃ r, reading p = some r ∧ sessionOf env raw = sessionOf env r.raw

/-- The file that is there, and those that were read since the last save or lock. -/
def Current (w : World (State Raw) (@Answer Raw) CoreError Unit) (raw : Raw) : Prop :=
  w.state.file = some raw ∨
    ∃ p ∈ w.procs, ∃ r, reading p = some r ∧ r.turn = w.state.turn ∧ r.raw = raw

structure Inv (w : World (State Raw) (@Answer Raw) CoreError Unit) : Prop where
  turns : ∀ p ∈ w.procs, ∀ r, reading p = some r → r.turn ≤ w.state.turn
  same : ∀ raw raw', Current w raw → Current w raw' → sessionOf env raw = sessionOf env raw'
  since : ∀ n, w.state.lockedAt = some n → ∀ raw, Current w raw →
    ∃ id, sessionOf env raw = some id ∧ n ≤ id
  own : ∀ p ∈ w.procs, OwnSession env p

variable {env} {w : World (State Raw) (@Answer Raw) CoreError Unit} {i : Nat} {p : Process Raw}
  {next : Prog Raw Unit} {e : Event (@Answer Raw) CoreError} {state : State Raw}

theorem reading_perform (p : Process Raw) (next : Prog Raw Unit) (e : Event (@Answer Raw) CoreError) :
    reading (p.perform next e) = (Knows.next
      (p.history.foldl (fun k e => Knows.next k e.1 e.2) Knows.start) e.1 e.2).reading := by
  simp [reading, Proc.perform]

/-- What an action may do to the reading of its process. -/
def Reads (p p' : Process Raw) (state : State Raw) : Prop :=
  reading p' = reading p ∨
    ∃ r, reading p = none ∧ reading p' = some r ∧ r.turn = state.turn ∧ state.file = some r.raw

/-- What an action may do to the file: within a turn it stays of its session, and a new turn begins with a
    file that no lock forbids. -/
def Turns (env : Env Raw Token) (w : World (State Raw) (@Answer Raw) CoreError Unit) (state : State Raw) :
    Prop :=
  (state.turn = w.state.turn ∧ state.lockedAt = w.state.lockedAt ∧
      ∀ raw, state.file = some raw → ∃ raw', Current w raw' ∧ sessionOf env raw = sessionOf env raw') ∨
    (state.turn = w.state.turn + 1 ∧ Locked env state)

theorem Inv.perform (h : Inv env w) (hp : w.procs[i]? = some p) (hturns : Turns env w state)
    (hreads : Reads p (p.perform next e) state)
    (hput : ∀ raw, putAway e = some raw →
      ∃ r, reading p = some r ∧ sessionOf env raw = sessionOf env r.raw) :
    Inv env (w.perform state i (p.perform next e) e) := by
  have hmem : p ∈ w.procs := List.mem_of_getElem? hp
  have hle : w.state.turn ≤ state.turn := by
    rcases hturns with ⟨hturn, -, -⟩ | ⟨hturn, -⟩ <;> omega
  -- a reading of the new state is one of the old state, or the file that is there
  have hold : ∀ q ∈ (w.perform state i (p.perform next e) e).procs, ∀ r, reading q = some r →
      (∃ q' ∈ w.procs, reading q' = some r) ∨ (r.turn = state.turn ∧ state.file = some r.raw) := by
    intro q hq r hr
    rcases List.mem_or_eq_of_mem_set hq with hq | rfl
    · exact .inl ⟨q, hq, hr⟩
    · rcases hreads with heq | ⟨r', -, hr', hturn, hfile⟩
      · exact .inl ⟨p, hmem, heq ▸ hr⟩
      · obtain rfl := Option.some.inj (hr'.symm.trans hr)
        exact .inr ⟨hturn, hfile⟩
  have hcurrent : ∀ raw, Current (w.perform state i (p.perform next e) e) raw →
      state.file = some raw ∨ (state.turn = w.state.turn ∧ Current w raw) := by
    rintro raw (hfile | ⟨q, hq, r, hr, hturn, rfl⟩)
    · exact .inl hfile
    · rcases hold q hq r hr with ⟨q', hq', hr'⟩ | ⟨-, hfile⟩
      · have hrle := h.turns q' hq' r hr'
        have hturn' : r.turn = state.turn := hturn
        have heq : state.turn = w.state.turn := by omega
        exact .inr ⟨heq, .inr ⟨q', hq', r, hr', hturn'.trans heq, rfl⟩⟩
      · exact .inl hfile
  refine ⟨?_, ?_, ?_, ?_⟩
  · intro q hq r hr
    rcases hold q hq r hr with ⟨q', hq', hr'⟩ | ⟨hturn, -⟩
    · exact (h.turns q' hq' r hr').trans hle
    · exact hturn.le
  · intro raw raw' hraw hraw'
    rcases hturns with ⟨-, -, hfile⟩ | ⟨hturn, -⟩
    · have hback : ∀ raw, Current (w.perform state i (p.perform next e) e) raw →
          ∃ raw', Current w raw' ∧ sessionOf env raw = sessionOf env raw' := by
        intro raw hraw
        rcases hcurrent raw hraw with hraw | ⟨-, hraw⟩
        · exact hfile raw hraw
        · exact ⟨raw, hraw, rfl⟩
      obtain ⟨u, hu, hsame⟩ := hback raw hraw
      obtain ⟨u', hu', hsame'⟩ := hback raw' hraw'
      rw [hsame, hsame', h.same u u' hu hu']
    · rcases hcurrent raw hraw with hraw | ⟨heq, -⟩
      · rcases hcurrent raw' hraw' with hraw' | ⟨heq, -⟩
        · rw [Option.some.inj (hraw.symm.trans hraw')]
        · omega
      · omega
  · intro n hn raw hraw
    rcases hturns with ⟨-, hlocked, hfile⟩ | ⟨hturn, hlocked⟩
    · have hn' : w.state.lockedAt = some n := hlocked ▸ hn
      rcases hcurrent raw hraw with hraw | ⟨-, hraw⟩
      · obtain ⟨u, hu, hsame⟩ := hfile raw hraw
        rw [hsame]
        exact h.since n hn' u hu
      · exact h.since n hn' raw hraw
    · rcases hcurrent raw hraw with hraw | ⟨heq, -⟩
      · exact hlocked n hn raw hraw
      · omega
  · intro q hq f hf raw hraw
    rcases List.mem_or_eq_of_mem_set hq with hq | rfl
    · exact h.own q hq f hf raw hraw
    · obtain ⟨r, hr, hsame⟩ : ∃ r, reading p = some r ∧ sessionOf env raw = sessionOf env r.raw := by
        rcases List.mem_append.1 hf with hf | hf
        · exact h.own p hmem f hf raw hraw
        · obtain rfl := List.mem_singleton.1 hf
          exact hput raw hraw
      rcases hreads with heq | ⟨r', hnone, -⟩
      · exact ⟨r, heq.trans hr, hsame⟩
      · rw [hnone] at hr
        cases hr

/-- A call that fails changes nothing. -/
theorem Exec.failed {s s' : State Raw} {a : Action Raw} {e : CoreError}
    (h : Exec s a (.error e) s') (p : Process Raw) (next : Prog Raw Unit) :
    s' = s ∧ reading (p.perform next ⟨a, .error e⟩) = reading p ∧ putAway ⟨a, .error e⟩ = none := by
  have hknows : reading (p.perform next ⟨a, .error e⟩) = reading p := by
    simp only [reading, Proc.perform, List.foldl_append, List.foldl_cons, List.foldl_nil]
    cases a <;> rfl
  cases a with
  | rename caller contents => cases caller <;> exact ⟨h, hknows, rfl⟩
  | removeFile caller => cases caller <;> exact ⟨h, hknows, rfl⟩
  | _ => exact ⟨h, hknows, rfl⟩

/-- The file that is there stays. -/
theorem Turns.refl {env : Env Raw Token} (w : World (State Raw) (@Answer Raw) CoreError Unit) :
    Turns env w w.state :=
  .inl ⟨rfl, rfl, fun raw hraw => ⟨raw, .inl hraw, rfl⟩⟩

theorem Inv.act (h : Inv env w) (hp : w.procs[i]? = some p) {a : Action Raw}
    {r : Except CoreError (Answer a)}
    (hallowed : (discipline env).allowed (p.knows (discipline env) Knows.start) a)
    (hexec : Exec w.state a r state) (hcond : Undisturbed w p ⟨a, r⟩) :
    Inv env (w.perform state i (p.perform next ⟨a, r⟩) ⟨a, r⟩) := by
  have hmem : p ∈ w.procs := List.mem_of_getElem? hp
  cases r with
  | error e =>
      obtain ⟨hstate, hreads, hput⟩ := hexec.failed p next
      rw [hstate]
      exact h.perform hp (Turns.refl w) (.inl hreads) (fun raw hraw => by simp [hput] at hraw)
  | ok x =>
      cases a with
      | newSessionId =>
          obtain ⟨-, rfl⟩ := hexec
          refine h.perform hp (Turns.refl w) (.inl ?_) (fun raw hraw => by cases hraw)
          rw [reading_perform]
          rfl
      | now | writeTemp contents | removeTemp =>
          obtain rfl : state = w.state := hexec
          refine h.perform hp (Turns.refl w) (.inl ?_) (fun raw hraw => by cases hraw)
          rw [reading_perform]
          rfl
      | readFile =>
          obtain ⟨rfl, rfl⟩ := hexec
          refine h.perform hp (Turns.refl w) ?_ (fun raw hraw => by cases hraw)
          have hnone : reading p = none := hallowed
          cases hfile : w.state.file with
          | none =>
              refine .inl ?_
              rw [reading_perform, hnone]
              rfl
          | some raw =>
              refine .inr ⟨⟨raw, w.state.turn⟩, hnone, ?_, rfl, hfile⟩
              rw [reading_perform]
              rfl
      | rename caller contents =>
          have hreads : reading (p.perform next ⟨.rename caller contents, .ok x⟩) = reading p := by
            rw [reading_perform]
            rfl
          cases caller with
          | save =>
              obtain ⟨-, rfl⟩ := hexec
              obtain ⟨-, id, hid, hsession⟩ := hallowed
              refine h.perform hp (.inr ⟨rfl, ?_⟩) (.inl hreads) (fun raw hraw => by cases hraw)
              intro n hn raw hraw
              obtain rfl := Option.some.inj hraw
              exact ⟨id, hsession, hcond id hid n hn⟩
          | loadAndRefresh =>
              obtain ⟨rfl, rfl⟩ := hexec
              obtain ⟨r, id, hr, hid, hsession⟩ := hallowed
              have hcurrent : Current w r.raw := .inr ⟨p, hmem, r, hr, (hcond r hr).symm, rfl⟩
              refine h.perform hp (.inl ⟨rfl, rfl, ?_⟩) (.inl hreads) ?_
              · intro raw hraw
                obtain rfl := Option.some.inj hraw
                exact ⟨r.raw, hcurrent, hsession.trans hid.symm⟩
              · intro raw hraw
                exact ⟨r, hr, h.same raw r.raw (.inl hraw) hcurrent⟩
          | destroy => exact hallowed.elim
      | removeFile caller =>
          have hreads : reading (p.perform next ⟨.removeFile caller, .ok x⟩) = reading p := by
            rw [reading_perform]
            rfl
          cases caller with
          | save => exact hallowed.elim
          | loadAndRefresh =>
              obtain ⟨rfl, rfl⟩ := hexec
              refine h.perform hp (.inl ⟨rfl, rfl, fun raw hraw => by cases hraw⟩) (.inl hreads) ?_
              intro raw hraw
              obtain ⟨r, hr⟩ := Option.isSome_iff_exists.1 hallowed
              have hfile : w.state.file = some raw := hraw
              have hturn : w.state.turn = r.turn := by
                rw [hfile] at hcond
                exact hcond r hr
              exact ⟨r, hr, h.same raw r.raw (.inl hraw) (.inr ⟨p, hmem, r, hr, hturn.symm, rfl⟩)⟩
          | destroy =>
              obtain ⟨-, rfl⟩ := hexec
              refine h.perform hp (.inr ⟨rfl, ?_⟩) (.inl hreads) (fun raw hraw => by cases hraw)
              intro n _ raw hraw
              cases hraw

theorem Inv.procs (h : Inv env w) {procs : List (Process Raw)}
    (hprocs : ∀ p ∈ procs, reading p = none ∧ p.history = [] ∨
      ∃ q ∈ w.procs, p.history = q.history) : Inv env { w with procs } := by
  have hold : ∀ p ∈ procs, ∀ r, reading p = some r → ∃ q ∈ w.procs, reading q = some r := by
    intro p hp r hr
    rcases hprocs p hp with ⟨hnone, -⟩ | ⟨q, hq, heq⟩
    · rw [hnone] at hr
      cases hr
    · exact ⟨q, hq, by rwa [reading, heq] at hr⟩
  have hcurrent : ∀ raw, Current { w with procs } raw → Current w raw := by
    rintro raw (hfile | ⟨p, hp, r, hr, hturn, rfl⟩)
    · exact .inl hfile
    · obtain ⟨q, hq, hr'⟩ := hold p hp r hr
      exact .inr ⟨q, hq, r, hr', hturn, rfl⟩
  refine ⟨?_, ?_, ?_, ?_⟩
  · intro p hp r hr
    obtain ⟨q, hq, hr'⟩ := hold p hp r hr
    exact h.turns q hq r hr'
  · exact fun raw raw' hraw hraw' => h.same raw raw' (hcurrent raw hraw) (hcurrent raw' hraw')
  · exact fun n hn raw hraw => h.since n hn raw (hcurrent raw hraw)
  · intro p hp e he raw hraw
    rcases hprocs p hp with ⟨-, hnil⟩ | ⟨q, hq, heq⟩
    · rw [hnil] at he
      cases he
    · rw [heq] at he
      rw [reading, heq]
      exact h.own q hq e he raw hraw

/-- In a run without disturbance, a lock stays until a save that began after it, and a refresh replaces
    and removes only the session that it read. -/
theorem lock_final_undisturbed (env : Env Raw Token) {s₀ : State Raw} (hs₀ : s₀.lockedAt = none)
    {w : World (State Raw) (@Answer Raw) CoreError Unit}
    (hrun : Steps (Step (system env) Undisturbed) (World.initial s₀) w) :
    Locked env w.state ∧ ∀ p ∈ w.procs, OwnSession env p := by
  have hinv : Inv env w := by
    refine System.invariant (discipline env) Knows.start (obeys_program env) ?_ ?_ ?_ ?_ hrun
    · intro w op h
      refine h.procs fun p hp => ?_
      rcases List.mem_append.1 hp with hp | hp
      · exact .inr ⟨p, hp, rfl⟩
      · rw [List.mem_singleton.1 hp]
        exact .inl ⟨rfl, rfl⟩
    · intro w i p a next r state h hp _ hallowed hexec hcond
      exact h.act hp hallowed hexec hcond
    · intro w i p h hp
      refine h.procs fun q hq => ?_
      rcases List.mem_or_eq_of_mem_set hq with hq | rfl
      · exact .inr ⟨q, hq, rfl⟩
      · exact .inr ⟨p, List.mem_of_getElem? hp, rfl⟩
    · refine ⟨fun p hp => (by cases hp), ?_, fun n hn => ?_, fun p hp => (by cases hp)⟩
      · rintro raw raw' (hraw | ⟨p, hp, -⟩) (hraw' | ⟨q, hq, -⟩)
        · rw [Option.some.inj (hraw.symm.trans hraw')]
        · cases hq
        · cases hp
        · cases hp
      · rw [World.initial, hs₀] at hn
        cases hn
  exact ⟨fun n hn raw hraw => hinv.since n hn raw (.inl hraw), hinv.own⟩

end Invariant

/-! ## A refresh across a lock -/

section Schedule

instance (w : World (State Raw) (@Answer Raw) CoreError Unit) (p : Process Raw)
    (e : Event (@Answer Raw) CoreError) : Decidable (Undisturbed w p e) :=
  match e with
  | ⟨.rename .loadAndRefresh _, .ok _⟩ | ⟨.removeFile .loadAndRefresh, .ok (some _)⟩ =>
      inferInstanceAs (Decidable (∀ r ∈ reading p, w.state.turn = r.turn))
  | ⟨.rename .save _, .ok _⟩ =>
      inferInstanceAs (Decidable (∀ id ∈ drawnId p, ∀ n ∈ w.state.lockedAt, n ≤ id))
  | ⟨.rename .destroy _, _⟩ | ⟨.rename .save _, .error _⟩ | ⟨.rename .loadAndRefresh _, .error _⟩
  | ⟨.removeFile .save, _⟩ | ⟨.removeFile .destroy, _⟩ | ⟨.removeFile .loadAndRefresh, .error _⟩
  | ⟨.removeFile .loadAndRefresh, .ok none⟩ | ⟨.newSessionId, _⟩ | ⟨.now, _⟩ | ⟨.readFile, _⟩
  | ⟨.writeTemp _, _⟩ | ⟨.removeTemp, _⟩ => isTrue trivial

/-- The successful reply of a system call. -/
def reply (s : State Raw) : (a : Action Raw) → Option (Answer a × State Raw)
  | .newSessionId => some (s.drawn, { s with drawn := s.drawn + 1 })
  | .now => some ((0 : Nat), s)
  | .readFile => some (s.file.map (⟨·, s.turn⟩), s)
  | .writeTemp _ => some ((), s)
  | .removeTemp => some ((), s)
  | .rename .save contents => some (s.file, { s with file := some contents, turn := s.turn + 1 })
  | .rename _ contents => some (s.file, { s with file := some contents })
  | .removeFile .destroy => some (s.file, ⟨none, s.drawn, some s.drawn, s.turn + 1⟩)
  | .removeFile _ => some (s.file, { s with file := none })

theorem exec_reply {env : Env Raw Token} (s : State Raw) (a : Action Raw) (x : Answer a × State Raw)
    (h : reply s a = some x) : (system env).exec s a (.ok x.1) x.2 := by
  cases a with
  | rename caller contents => cases caller <;> obtain rfl := Option.some.inj h <;> exact ⟨rfl, rfl⟩
  | removeFile caller => cases caller <;> obtain rfl := Option.some.inj h <;> exact ⟨rfl, rfl⟩
  | newSessionId | readFile =>
      obtain rfl := Option.some.inj h
      exact ⟨rfl, rfl⟩
  | now | writeTemp contents | removeTemp =>
      obtain rfl := Option.some.inj h
      rfl

end Schedule

/-- Files that hold their fields, and a cipher that leaves the text as it is; a payload is its vault
    key. -/
def plainEnv : Env SessionFile Unit where
  parseFile := some
  renderFile := id
  parse_render _ := rfl
  parseTime _ := none
  timeText _ := []
  base64Decode s := some (s.map fun c => UInt8.ofNat c.toNat)
  base64Encode b := b.map fun x => Char.ofNat x.toNat
  hexDecode s := some (s.map fun c => UInt8.ofNat c.toNat)
  hexEncode b := b.map fun x => Char.ofNat x.toNat
  decrypt _ _ b := some (b.map fun x => Char.ofNat x.toNat)
  encrypt _ _ s := .ok (s.map fun c => UInt8.ofNat c.toNat)
  parsePayload s := some ⟨s, []⟩
  renderPayload p := p.vaultKeyHex

/-- An empty data directory. -/
def State.empty : State SessionFile := ⟨none, 0, none, 0⟩

def unlock : Op Unit := .save () ⟨[7], []⟩ 0

abbrev PlainWorld := World (State SessionFile) (@Answer SessionFile) CoreError Unit

/-- The session in the file, and how many were drawn before the last lock. -/
def leftFile (w : PlainWorld) : Option Nat × Option Nat :=
  (w.state.file.map SessionFile.sessionId, w.state.lockedAt)

/-- The session that a process read, and those that it replaced or removed. -/
def replacedBy (w : PlainWorld) (i : Nat) : Option (Option Nat × List Nat) :=
  w.procs[i]?.map fun p => ((reading p).map fun r => r.raw.sessionId,
    p.history.filterMap fun e => (putAway e).map SessionFile.sessionId)

/-- A refresh that read before a lock brings the session back; one that read before an unlock takes the
    new session away. -/
theorem refresh_across_lock :
    (∃ w, Steps (Step (system plainEnv) fun _ _ _ => True) (World.initial State.empty) w ∧
      ¬Locked plainEnv w.state) ∧
    ∃ w, Steps (Step (system plainEnv) fun _ _ _ => True) (World.initial State.empty) w ∧
      ∃ p ∈ w.procs, ¬OwnSession plainEnv p := by
  constructor
  · obtain ⟨w, hrun, hleft⟩ := Option.map_eq_some_iff.1 (by decide :
      ((World.initial State.empty).schedule (system plainEnv) (fun _ _ _ => True) reply
        [.start unlock, .act 0 5, .start (.loadAndRefresh ()), .act 1 1, .start .destroy, .act 2 1,
          .act 1 3]).map leftFile = some (some 0, some 1))
    refine ⟨w, World.steps_schedule exec_reply hrun, fun hlocked => ?_⟩
    simp only [leftFile, Prod.mk.injEq, Option.map_eq_some_iff] at hleft
    obtain ⟨⟨file, hfile, hid⟩, hlock⟩ := hleft
    obtain ⟨id, hsession, hle⟩ := hlocked 1 hlock file hfile
    obtain rfl : file.sessionId = id := Option.some.inj hsession
    omega
  · obtain ⟨w, hrun, hleft⟩ := Option.map_eq_some_iff.1 (by decide :
      ((World.initial State.empty).schedule (system plainEnv) (fun _ _ _ => True) reply
        [.start unlock, .act 0 5, .start (.loadAndRefresh ()), .act 1 1, .start unlock, .act 2 5,
          .act 1 3]).map (replacedBy · 1) = some (some (some 0, [1])))
    obtain ⟨p, hp, hleft⟩ := Option.map_eq_some_iff.1 hleft
    simp only [Prod.mk.injEq, Option.map_eq_some_iff] at hleft
    obtain ⟨⟨r, hr, hid⟩, hput⟩ := hleft
    refine ⟨w, World.steps_schedule exec_reply hrun, p, List.mem_of_getElem? hp, fun hown => ?_⟩
    obtain ⟨e, he, heput⟩ := List.mem_filterMap.1 (hput ▸ List.mem_singleton_self 1)
    obtain ⟨file, hfile, hfileid⟩ := Option.map_eq_some_iff.1 heput
    obtain ⟨r', hr', hsame⟩ := hown e he file hfile
    obtain rfl := Option.some.inj (hr'.symm.trans hr)
    have hids : file.sessionId = r'.raw.sessionId := Option.some.inj hsame
    omega

/-- An unlock, a refresh, a lock and another unlock, one after the other. -/
theorem lock_final_undisturbed_serial :
    ∃ w, Steps (Step (system plainEnv) Undisturbed) (World.initial State.empty) w ∧
      (Locked plainEnv w.state ∧ ∀ p ∈ w.procs, OwnSession plainEnv p) ∧
      leftFile w = (some 1, some 1) := by
  obtain ⟨w, hrun, hleft⟩ := Option.map_eq_some_iff.1 (by decide :
    ((World.initial State.empty).schedule (system plainEnv) Undisturbed reply
      [.start unlock, .act 0 5, .start (.loadAndRefresh ()), .act 1 4, .start .destroy, .act 2 1,
        .start unlock, .act 3 5]).map leftFile = some (some 1, some 1))
  have hsteps : Steps (Step (system plainEnv) Undisturbed) (World.initial State.empty) w :=
    World.steps_schedule exec_reply hrun
  exact ⟨w, hsteps, lock_final_undisturbed plainEnv rfl hsteps, hleft⟩

end Tethra.SessionFiles
