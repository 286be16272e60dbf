import Tethra.Gateway.Origin
import Tethra.Lib.Interleave

set_option autoImplicit false

/-! # The control socket (`gateway/src/control.rs`)

A gateway claims its data directory by binding a Unix socket. Before the bind it unlinks a socket on
which nobody answers, and when it stops it unlinks the path. Nothing ties an unlink to the socket that
was probed, or to the gateway's own: a claim stays the only one, and keeps its socket, while no other
process binds between a failed probe and its unlink, or between the end of a listener and its unlink
(`single_gateway`). -/

namespace Tethra.ControlSocket

open Interleave Runs Gateway

/-- The system calls; a listener is named by the inode of its socket. -/
inductive Action where
  | symlinkMetadata
  | connect
  | removeFile
  | bind
  | setPermissions
  | setNonblocking (listener : Nat)
  | accessIsStillRestricted
  | spawn (listener : Nat)
  | accept (listener : Nat)
  /-- The listener goes out of scope. -/
  | dropListener (listener : Nat)
  /-- The serving thread ends, and the listener with it. -/
  | join (listener : Nat)
  deriving DecidableEq, Repr

/-- `symlinkMetadata` says whether the path is a symlink. -/
abbrev Answer : Action → Type
  | .symlinkMetadata => Bool
  | .bind => Nat
  | .accessIsStillRestricted => Bool
  | _ => Unit

abbrev Prog := Interleave.Prog Answer CoreError

abbrev call (a : Action) : Prog (Answer a) := Interleave.Prog.call a

/-! ## The operations -/

def maxSocketPath : Nat := 100

def pathTooLong (path : Str) : Str :=
  "the control socket path is ".toList ++ (toString (utf8 path).length).toList
    ++ " bytes, past this platform's ~".toList ++ (toString maxSocketPath).toList
    ++ "-byte limit for Unix sockets (".toList ++ path
    ++ ("). Use a shorter data directory (TETHRA_DIR) to enable credential attribution and status; " ++
      "forwarding and recording work without it.").toList

/-- A stale socket from a dead instance is unlinked; a live one means another gateway. -/
def clearStale (path : Str) : Prog Unit := do
  match ← (call .symlinkMetadata).attempt with
  | .error _ => return
  | .ok true =>
      .throw (.invalidInput (path ++ " is a symlink; refusing to bind the control socket".toList))
  | .ok false =>
      match ← (call .connect).attempt with
      | .ok _ =>
          .throw (.invalidInput
            "another Tethra gateway is already running for this data directory".toList)
      | .error _ =>
          let _ ← (call .removeFile).attempt
          return

/-- A listener that is dropped because a call on it failed. -/
def orDrop (listener : Nat) (p : Prog Unit) : Prog Unit := do
  match ← p.attempt with
  | .ok _ => return
  | .error e =>
      call (.dropListener listener)
      .throw e

def bindExclusive (path : Str) : Prog Nat := do
  if maxSocketPath < (utf8 path).length then
    .throw (.invalidInput (pathTooLong path))
  else
    clearStale path
    let listener ← call .bind
    orDrop listener do
      call .setPermissions
      call (.setNonblocking listener)
    if ← call .accessIsStillRestricted then return listener
    else
      let _ ← (call .removeFile).attempt
      call (.dropListener listener)
      .throw (.invalidInput
        ("the control socket is not owner-only; refusing to serve an " ++
          "insufficiently protected control channel").toList)

/-- The loop of the serving thread, for so many connections. The access is verified on every accept. -/
def serve (listener : Nat) : Nat → Prog Unit
  | 0 => return
  | n + 1 => do
      match ← (call (.accept listener)).attempt with
      | .ok _ =>
          let _ ← call .accessIsStillRestricted
          serve listener n
      | .error _ => serve listener n

/-- `start_claimed` and the thread, up to its end. Without a thread the listener is gone at once. -/
def serveClaimed (listener connections : Nat) : Prog Unit := do
  match ← (call (.spawn listener)).attempt with
  | .ok _ =>
      serve listener connections
      call (.join listener)
  | .error _ => return

/-- A server, and its `stop`. -/
def startAndStop (listener connections : Nat) : Prog Unit := do
  serveClaimed listener connections
  let _ ← (call .removeFile).attempt
  return

/-- A gateway that runs, or one that fails behind its claim and drops it. -/
inductive Op where
  | run (connections : Nat)
  | abandon

def program (path : Str) : Op → Prog Unit
  | .run connections => do
      let listener ← bindExclusive path
      startAndStop listener connections
  | .abandon => do
      let listener ← bindExclusive path
      call (.dropListener listener)

/-! ## The data directory -/

/-- What is at the socket's path. -/
structure Entry where
  inode : Nat
  symlink : Bool
  ownerOnly : Bool
  deriving DecidableEq, Repr

/-- The path, and the inode of the next socket. -/
structure State where
  entry : Option Entry
  nextInode : Nat
  deriving DecidableEq, Repr

/-- The socket that the path names. -/
def State.named (s : State) : Option Nat := s.entry.map Entry.inode

/-- The socket is the owner's alone. The directory may be too open at any time. -/
def Entry.restricted (e : Entry) : Bool := !e.symlink && e.ownerOnly

/-- A reply of an action and the state behind it; a call that fails changes nothing. -/
def Exec (s : State) : (a : Action) → Except CoreError (Answer a) → State → Prop
  | .symlinkMetadata, .ok symlink, s' => s.entry.map Entry.symlink = some symlink ∧ s' = s
  | .connect, .ok _, s' => s.entry.isSome ∧ s' = s
  | .removeFile, .ok _, s' => s.entry.isSome ∧ s' = { s with entry := none }
  | .bind, .ok inode, s' =>
      s.entry = none ∧ inode = s.nextInode ∧ s' = ⟨some ⟨inode, false, false⟩, s.nextInode + 1⟩
  | .setPermissions, .ok _, s' =>
      ∃ e, s.entry = some e ∧ s' = { s with entry := some { e with ownerOnly := true } }
  | .accessIsStillRestricted, .ok restricted, s' =>
      (restricted = true → s.entry.any Entry.restricted = true) ∧ s' = s
  | .setNonblocking _, .ok _, s' => s' = s
  | .spawn _, .ok _, s' => s' = s
  | .accept _, .ok _, s' => s' = s
  | .dropListener _, .ok _, s' => s' = s
  | .join _, .ok _, s' => s' = s
  | .accessIsStillRestricted, .error _, _ => False
  | .dropListener _, .error _, _ => False
  | .join _, .error _, _ => False
  | _, .error _, s' => s' = s

def system (path : Str) : System State Op Answer CoreError Unit where
  program := program path
  exec := Exec

/-! ## The phases of a process -/

inductive Phase where
  | idle
  /-- Nobody answered at the path, which is unlinked next. -/
  | stale
  /-- The socket is bound, and the claim not yet given. -/
  | bound (listener : Nat)
  /-- The socket is not the owner's alone, and is unlinked next. -/
  | refused (listener : Nat)
  | claimed (listener : Nat)
  /-- The listener is closed, and the path is unlinked next. -/
  | closing
  deriving DecidableEq, Repr

def Phase.next (ph : Phase) : (a : Action) → Except CoreError (Answer a) → Phase
  | .connect, .error _ => .stale
  | .removeFile, _ => .idle
  | .bind, .ok listener => .bound listener
  | .accessIsStillRestricted, .ok restricted =>
      match ph with
      | .bound listener => if restricted then .claimed listener else .refused listener
      | _ => ph
  | .spawn _, .error _ => .closing
  | .join _, _ => .closing
  | .dropListener _, _ => .idle
  | _, _ => ph

/-- The open listener whose socket the process relies on. -/
def Phase.socket : Phase → Option Nat
  | .bound listener | .refused listener | .claimed listener => some listener
  | _ => none

/-- The process is about to unlink the path without a listener of its own. -/
def Phase.unlinks : Phase → Bool
  | .stale | .closing => true
  | _ => false

def Phase.Allowed (ph : Phase) : Action → Prop
  | .symlinkMetadata | .connect | .bind => ph = .idle
  | .removeFile => ph = .stale ∨ ph = .closing ∨ ∃ listener, ph = .refused listener
  | .setPermissions | .setNonblocking _ => ∃ listener, ph = .bound listener
  | .accessIsStillRestricted => ph.socket.isSome
  | .spawn _ | .accept _ | .join _ => ∃ listener, ph = .claimed listener
  | .dropListener _ => ph = .idle ∨ ph.socket.isSome

def discipline : Discipline Answer CoreError Phase where
  allowed := Phase.Allowed
  next := Phase.next

section Obeys

variable {β : Type} {ph : Phase} {post : Phase → Except CoreError β → Prop}

theorem obeys_attempt {a : Action} {f : Except CoreError (Answer a) → Prog β} (ha : ph.Allowed a)
    (h : ∀ r, Obeys discipline (f r) (ph.next a r) post) :
    Obeys discipline ((call a).attempt >>= f) ph post := by
  refine ⟨ha, fun r => ?_⟩
  cases r with
  | ok x => exact h (.ok x)
  | error e => exact h (.error e)

theorem obeys_clearStale (path : Str) :
    Obeys discipline (clearStale path) .idle fun ph _ => ph = .idle := by
  refine obeys_attempt rfl fun r => ?_
  match r with
  | .error e => exact rfl
  | .ok true => exact rfl
  | .ok false =>
      refine obeys_attempt rfl fun r => ?_
      cases r with
      | ok x => exact rfl
      | error e => exact obeys_attempt (.inl rfl) fun r => rfl

/-- The two calls on the new socket, or the end of the listener. -/
theorem obeys_orDrop (listener : Nat) :
    Obeys discipline
      (orDrop listener do
        call .setPermissions
        call (.setNonblocking listener))
      (.bound listener) fun ph r => r = .ok () → ph = .bound listener := by
  have hcalls : Obeys discipline (do call .setPermissions; call (.setNonblocking listener))
      (.bound listener) fun ph _ => ph = .bound listener :=
    Obeys.call_bind ⟨listener, rfl⟩ (fun _ => Obeys.call ⟨listener, rfl⟩ fun _ => rfl) fun _ => rfl
  have hattempt : Obeys discipline (Interleave.Prog.attempt do
      call .setPermissions
      call (.setNonblocking listener)) (.bound listener) fun ph _ => ph = .bound listener :=
    Obeys.attempt hcalls
  refine hattempt.bind ?_ fun ph e hph hok => by cases hok
  rintro _ (e | x) rfl
  · refine Obeys.call_bind (.inr rfl) (fun _ => ?_) fun _ hok => by cases hok
    intro hok
    cases hok
  · exact fun _ => rfl

theorem obeys_bindExclusive (path : Str) :
    Obeys discipline (bindExclusive path) .idle
      fun ph r => ∀ listener, r = .ok listener → ph = .claimed listener := by
  unfold bindExclusive
  split
  · intro listener hok
    cases hok
  refine (obeys_clearStale path).bind ?_ fun _ _ _ _ hok => by cases hok
  rintro _ _ rfl
  refine Obeys.call_bind rfl (fun listener => ?_) fun _ _ hok => by cases hok
  refine (obeys_orDrop listener).bind ?_ fun _ _ _ _ hok => by cases hok
  intro ph _ hph
  obtain rfl := hph rfl
  refine Obeys.call_bind rfl (fun restricted => ?_) fun _ _ hok => by cases hok
  cases restricted with
  | true =>
      intro listener' hok
      obtain rfl := Except.ok.inj hok
      rfl
  | false =>
      refine obeys_attempt (.inr (.inr ⟨listener, rfl⟩)) fun _ => ?_
      refine Obeys.call_bind (.inl rfl) (fun _ => ?_) fun _ _ hok => by cases hok
      intro listener' hok
      cases hok

theorem obeys_serve (listener connections : Nat) :
    Obeys discipline (serve listener connections) (.claimed listener)
      fun ph r => r = .ok () → ph = .claimed listener := by
  induction connections with
  | zero => exact fun _ => rfl
  | succ n ih =>
      refine obeys_attempt ⟨listener, rfl⟩ fun r => ?_
      cases r with
      | ok x => exact Obeys.call_bind rfl (fun _ => ih) fun _ hok => by cases hok
      | error e => exact ih

theorem obeys_serveClaimed (listener connections : Nat) :
    Obeys discipline (serveClaimed listener connections) (.claimed listener)
      fun ph r => r = .ok () → ph = .closing := by
  refine obeys_attempt ⟨listener, rfl⟩ fun r => ?_
  cases r with
  | error e => exact fun _ => rfl
  | ok x =>
      refine (obeys_serve listener connections).bind ?_ fun _ _ _ hok => by cases hok
      intro ph _ hph
      obtain rfl := hph rfl
      exact Obeys.call ⟨listener, rfl⟩ fun _ _ => rfl

theorem obeys_startAndStop (listener connections : Nat) :
    Obeys discipline (startAndStop listener connections) (.claimed listener) fun _ _ => True := by
  refine (obeys_serveClaimed listener connections).bind ?_ fun _ _ _ => trivial
  intro ph _ hph
  obtain rfl := hph rfl
  exact obeys_attempt (.inr (.inl rfl)) fun _ => trivial

theorem obeys_program (path : Str) (op : Op) :
    Obeys discipline (program path op) .idle fun _ _ => True := by
  cases op with
  | run connections =>
      refine (obeys_bindExclusive path).bind ?_ fun _ _ _ => trivial
      intro ph listener hph
      obtain rfl := hph listener rfl
      exact obeys_startAndStop listener connections
  | abandon =>
      refine (obeys_bindExclusive path).bind ?_ fun _ _ _ => trivial
      intro ph listener hph
      obtain rfl := hph listener rfl
      exact Obeys.call (.inr rfl) fun _ => trivial

end Obeys

/-! ## One claim -/

abbrev Process := Proc Answer CoreError Unit

abbrev ControlWorld := World State Answer CoreError Unit

/-- Where the process is, from what it has performed. -/
def phase (p : Process) : Phase := p.knows discipline .idle

/-- The process has not crashed. -/
def Alive (p : Process) : Prop := p.prog.isSome = true

instance (p : Process) : Decidable (Alive p) := inferInstanceAs (Decidable (_ = _))

/-- The listener of a process that holds a claim. -/
def claimOf (p : Process) : Option Nat :=
  match phase p with
  | .claimed listener => if Alive p then some listener else none
  | _ => none

/-- At most one process holds a claim, and the path names its socket. -/
structure SingleClaim (w : ControlWorld) : Prop where
  one : ∀ (i j : Nat) (p q : Process), w.procs[i]? = some p → w.procs[j]? = some q →
    (claimOf p).isSome → (claimOf q).isSome → i = j
  kept : ∀ p ∈ w.procs, ∀ listener, claimOf p = some listener → w.state.named = some listener

/-- Nobody answers at a path only when no process listens on the socket there. -/
def Answered (w : ControlWorld) : Event Answer CoreError → Prop
  | ⟨.connect, .error _⟩ => ∀ q ∈ w.procs, Alive q → (phase q).socket.isSome →
      (phase q).socket ≠ w.state.named
  | _ => True

/-- No process binds while another is about to unlink the path. -/
def Ordered (w : ControlWorld) : Event Answer CoreError → Prop
  | ⟨.bind, .ok _⟩ => ∀ q ∈ w.procs, Alive q → (phase q).unlinks = false
  | _ => True

/-- Both. -/
def Undisturbed (w : ControlWorld) (_ : Process) (e : Event Answer CoreError) : Prop :=
  Answered w e ∧ Ordered w e

section Invariant

/-- What holds of all processes but one that have not crashed. -/
def Others (w : ControlWorld) (i : Nat) (P : Phase → Prop) : Prop :=
  ∀ (j : Nat) (q : Process), j ≠ i → w.procs[j]? = some q → Alive q → P (phase q)

structure Inv (w : ControlWorld) : Prop where
  named : ∀ (i : Nat) (p : Process), w.procs[i]? = some p → Alive p → ∀ listener,
    (phase p).socket = some listener → w.state.named = some listener
  /-- Besides a process that listens, no other listens or is about to unlink. -/
  alone : ∀ (i : Nat) (p : Process), w.procs[i]? = some p → Alive p → (phase p).socket.isSome →
    Others w i fun ph => ph.socket = none ∧ ph.unlinks = false

variable {w : ControlWorld} {i : Nat} {p p' : Process} {state : State} {e : Event Answer CoreError}

/-- A process that is about to unlink leaves no room for a listener. -/
theorem Inv.quiet (h : Inv w) (hp : w.procs[i]? = some p) (halive : Alive p)
    (hunlinks : (phase p).unlinks = true) : Others w i fun ph => ph.socket = none := by
  intro j q hj hq hq'
  by_contra hsocket
  have hclear := h.alone j q hq hq' (Option.isSome_iff_ne_none.2 hsocket) i p hj.symm hp halive
  simp [hunlinks] at hclear

/-- What an action may do: a process that listens names the path, and is alone; the path changes only
    when no other listens. -/
theorem Inv.perform (h : Inv w)
    (hnamed : ∀ listener, (phase p').socket = some listener → state.named = some listener)
    (halone : (phase p').socket.isSome → Others w i fun ph => ph.socket = none ∧ ph.unlinks = false)
    (hpath : state.named = w.state.named ∨ Others w i fun ph => ph.socket = none)
    (hunlinks : (phase p').unlinks = true → Others w i fun ph => ph.socket = none) :
    Inv (w.perform state i p' e) := by
  refine ⟨?_, ?_⟩
  · intro j q hq halive listener hlistener
    rcases getElem?_procs_set hq with ⟨rfl, rfl⟩ | ⟨hj, hq⟩
    · exact hnamed listener hlistener
    · rcases hpath with hsame | hnone
      · exact hsame.trans (h.named j q hq halive listener hlistener)
      · rw [hnone j q hj hq halive] at hlistener
        cases hlistener
  · intro j q hq halive hsocket k r hk hr halive'
    rcases getElem?_procs_set hq with ⟨rfl, rfl⟩ | ⟨hj, hold⟩
    · rcases getElem?_procs_set hr with ⟨rfl, -⟩ | ⟨-, hr⟩
      · exact absurd rfl hk
      · exact halone hsocket k r hk hr halive'
    · rcases getElem?_procs_set hr with ⟨rfl, rfl⟩ | ⟨-, hr⟩
      · -- The other listens, so this one neither does nor is about to unlink.
        have hother : (phase q).socket ≠ none := Option.isSome_iff_ne_none.1 hsocket
        refine ⟨?_, ?_⟩
        · by_contra hself
          exact hother (halone (Option.isSome_iff_ne_none.2 hself) j q hj hold halive).1
        · by_contra hself
          exact hother (hunlinks (by simpa using hself) j q hj hold halive)
      · exact h.alone j q hold halive hsocket k r hk hr halive'

theorem Inv.start (h : Inv w) {prog : Prog Unit} :
    Inv { w with procs := w.procs ++ [⟨some prog, []⟩] } := by
  have hnew : ∀ (j : Nat) (q : Process), (w.procs ++ [⟨some prog, []⟩])[j]? = some q →
      w.procs[j]? = some q ∨ phase q = .idle := by
    intro j q hq
    rw [List.getElem?_append] at hq
    split_ifs at hq
    · exact .inl hq
    · have hmem := List.mem_of_getElem? hq
      rw [List.mem_singleton.1 hmem]
      exact .inr rfl
  refine ⟨?_, ?_⟩
  · intro j q hq halive listener hlistener
    rcases hnew j q hq with hq | hidle
    · exact h.named j q hq halive listener hlistener
    · rw [hidle] at hlistener
      cases hlistener
  · intro j q hq halive hsocket k r hk hr halive'
    rcases hnew j q hq with hq | hidle
    · rcases hnew k r hr with hr | hidle
      · exact h.alone j q hq halive hsocket k r hk hr halive'
      · rw [hidle]
        exact ⟨rfl, rfl⟩
    · rw [hidle] at hsocket
      cases hsocket

theorem Inv.crash (h : Inv w) : Inv { w with procs := w.procs.set i ⟨none, p.history⟩ } := by
  refine ⟨?_, ?_⟩
  · intro j q hq halive listener hlistener
    rcases getElem?_procs_set hq with ⟨-, rfl⟩ | ⟨-, hq⟩
    · cases halive
    · exact h.named j q hq halive listener hlistener
  · intro j q hq halive hsocket k r hk hr halive'
    rcases getElem?_procs_set hq with ⟨-, rfl⟩ | ⟨-, hq⟩
    · cases halive
    · rcases getElem?_procs_set hr with ⟨-, rfl⟩ | ⟨-, hr⟩
      · cases halive'
      · exact h.alone j q hq halive hsocket k r hk hr halive'

/-- The phase behind an action. -/
theorem phase_perform (p : Process) (next : Prog Unit) (e : Event Answer CoreError) :
    phase (p.perform next e) = (phase p).next e.1 e.2 := Proc.knows_perform discipline .idle p next e

/-- An action that leaves the path and the part of its process alone. -/
theorem Inv.still (h : Inv w) (hp : w.procs[i]? = some p) (halive : Alive p)
    (hpath : state.named = w.state.named) (hphase : (phase p').socket = (phase p).socket)
    (hunlinks : (phase p').unlinks = true → (phase p).unlinks = true) :
    Inv (w.perform state i p' e) :=
  h.perform (fun listener hl => hpath.trans (h.named i p hp halive listener (hphase ▸ hl)))
    (fun hs => h.alone i p hp halive (hphase ▸ hs)) (.inl hpath)
    fun hu => h.quiet hp halive (hunlinks hu)

/-- An action behind which its process neither listens nor is about to unlink. -/
theorem Inv.idle (h : Inv w) (hphase : phase p' = .idle)
    (hpath : state.named = w.state.named ∨ Others w i fun ph => ph.socket = none) :
    Inv (w.perform state i p' e) := by
  refine h.perform (fun listener hs => ?_) (fun hs => ?_) hpath fun hs => ?_
  all_goals
    rw [hphase] at hs
    cases hs

/-- The listener of a process ends and the unlink is left. -/
theorem Inv.closes (h : Inv w) (hp : w.procs[i]? = some p) (halive : Alive p)
    (hpath : state.named = w.state.named) (hsocket : (phase p).socket.isSome)
    (hphase : phase p' = .closing) : Inv (w.perform state i p' e) := by
  have hothers : Others w i fun ph => ph.socket = none :=
    fun j q hj hq hq' => (h.alone i p hp halive hsocket j q hj hq hq').1
  refine h.perform ?_ ?_ (.inl hpath) fun _ => hothers
  · intro listener hl
    rw [hphase] at hl
    cases hl
  · intro hs
    rw [hphase] at hs
    cases hs

theorem Inv.act (h : Inv w) (hp : w.procs[i]? = some p) {a : Action}
    {next : Except CoreError (Answer a) → Prog Unit} {r : Except CoreError (Answer a)}
    (hprog : p.prog = some (.act a next)) (hallowed : (phase p).Allowed a)
    (hexec : Exec w.state a r state) (hcond : Undisturbed w p ⟨a, r⟩) :
    Inv (w.perform state i (p.perform (next r) ⟨a, r⟩) ⟨a, r⟩) := by
  have halive : Alive p := by rw [Alive, hprog]; rfl
  have hphase := phase_perform p (next r) ⟨a, r⟩
  have hstill : state = w.state → (phase p).next a r = phase p →
      Inv (w.perform state i (p.perform (next r) ⟨a, r⟩) ⟨a, r⟩) := by
    intro hstate hnext
    rw [hnext] at hphase
    refine h.still hp halive (by rw [hstate]) (by rw [hphase]) (by rw [hphase]; exact id)
  cases a with
  | symlinkMetadata =>
      cases r with
      | ok symlink => exact hstill hexec.2 rfl
      | error e => exact hstill hexec rfl
  | connect =>
      cases r with
      | ok x => exact hstill hexec.2 rfl
      | error e =>
          obtain rfl := hexec
          -- Nobody answered, so no process listens at the path, and so nowhere.
          have hothers : Others w i fun ph => ph.socket = none := by
            intro j q hj hq hq'
            by_contra hsocket
            obtain ⟨listener, hl⟩ := Option.ne_none_iff_exists'.1 hsocket
            refine hcond.1 q (List.mem_of_getElem? hq) hq' (Option.isSome_iff_ne_none.2 hsocket) ?_
            rw [hl, h.named j q hq hq' listener hl]
          refine h.perform ?_ ?_ (.inl rfl) fun _ => hothers <;> rw [hphase]
          · intro listener hl
            cases hl
          · intro hs
            cases hs
  | removeFile =>
      refine h.idle hphase (.inr ?_)
      rcases hallowed with hstale | hclosing | ⟨listener, hrefused⟩
      · exact h.quiet hp halive (by rw [hstale]; rfl)
      · exact h.quiet hp halive (by rw [hclosing]; rfl)
      · exact fun j q hj hq hq' => (h.alone i p hp halive (by rw [hrefused]; rfl) j q hj hq hq').1
  | bind =>
      cases r with
      | error e => exact hstill hexec rfl
      | ok listener =>
          obtain ⟨hnone, rfl, rfl⟩ := hexec
          have hothers : Others w i fun ph => ph.socket = none := by
            intro j q hj hq hq'
            by_contra hsocket
            obtain ⟨l, hl⟩ := Option.ne_none_iff_exists'.1 hsocket
            have hnamed := h.named j q hq hq' l hl
            rw [State.named, hnone] at hnamed
            cases hnamed
          refine h.perform ?_ ?_ (.inr hothers) ?_ <;> rw [hphase]
          · exact fun l hl => hl
          · exact fun _ j q hj hq hq' =>
              ⟨hothers j q hj hq hq', hcond.2 q (List.mem_of_getElem? hq) hq'⟩
          · intro hu
            cases hu
  | setPermissions =>
      cases r with
      | error e => exact hstill hexec rfl
      | ok x =>
          obtain ⟨entry, hentry, rfl⟩ := hexec
          refine h.still hp halive ?_ (by rw [hphase]; rfl) (by rw [hphase]; exact id)
          rw [State.named, State.named, hentry]
          rfl
  | setNonblocking listener => cases r <;> exact hstill hexec rfl
  | accept listener => cases r <;> exact hstill hexec rfl
  | accessIsStillRestricted =>
      cases r with
      | error e => cases hexec
      | ok restricted =>
          obtain ⟨-, rfl⟩ := hexec
          refine h.still hp halive rfl ?_ ?_ <;> rw [hphase]
          · cases phase p <;> cases restricted <;> rfl
          · cases phase p <;> cases restricted <;> exact id
  | spawn listener =>
      obtain ⟨l, hclaimed⟩ := hallowed
      cases r with
      | ok x => exact hstill hexec rfl
      | error e => exact h.closes hp halive (by rw [hexec]) (by rw [hclaimed]; rfl) hphase
  | join listener =>
      obtain ⟨l, hclaimed⟩ := hallowed
      cases r with
      | error e => cases hexec
      | ok x => exact h.closes hp halive (by rw [hexec]) (by rw [hclaimed]; rfl) hphase
  | dropListener listener =>
      cases r with
      | error e => cases hexec
      | ok x => exact h.idle hphase (.inl (by rw [hexec]))

end Invariant

theorem claimOf_eq_some {p : Process} {listener : Nat} :
    claimOf p = some listener ↔ Alive p ∧ phase p = .claimed listener := by
  unfold claimOf
  split
  · rename_i l hphase
    by_cases halive : Alive p <;> simp [halive, hphase]
  · rename_i hother
    simp only [reduceCtorEq, false_iff, not_and]
    exact fun _ hclaimed => hother listener hclaimed

theorem Inv.singleClaim {w : ControlWorld} (h : Inv w) : SingleClaim w := by
  have hsocket : ∀ p : Process, (claimOf p).isSome → Alive p ∧ (phase p).socket.isSome := by
    intro p hp
    obtain ⟨listener, hl⟩ := Option.isSome_iff_exists.1 hp
    obtain ⟨halive, hphase⟩ := claimOf_eq_some.1 hl
    exact ⟨halive, by rw [hphase]; rfl⟩
  refine ⟨?_, ?_⟩
  · intro i j p q hi hj hp hq
    by_contra hne
    obtain ⟨hp', hps⟩ := hsocket p hp
    obtain ⟨hq', hqs⟩ := hsocket q hq
    rw [(h.alone i p hi hp' hps j q (Ne.symm hne) hj hq').1] at hqs
    cases hqs
  · intro p hp listener hl
    obtain ⟨i, hi⟩ := List.mem_iff_getElem?.1 hp
    obtain ⟨halive, hphase⟩ := claimOf_eq_some.1 hl
    exact h.named i p hi halive listener (by rw [hphase]; rfl)

/-- The successful reply of a system call. -/
def reply (s : State) : (a : Action) → Option (Answer a × State)
  | .symlinkMetadata => s.entry.map fun e => (e.symlink, s)
  | .connect => if s.entry.isSome then some ((), s) else none
  | .removeFile => if s.entry.isSome then some ((), { s with entry := none }) else none
  | .bind =>
      if s.entry = none then some (s.nextInode, ⟨some ⟨s.nextInode, false, false⟩, s.nextInode + 1⟩)
      else none
  | .setPermissions => s.entry.map fun e => ((), { s with entry := some { e with ownerOnly := true } })
  | .accessIsStillRestricted => some (s.entry.any Entry.restricted, s)
  | .setNonblocking _ => some ((), s)
  | .spawn _ => some ((), s)
  | .accept _ => some ((), s)
  | .dropListener _ => some ((), s)
  | .join _ => some ((), s)

theorem exec_reply {path : Str} (s : State) (a : Action) (x : Answer a × State)
    (h : reply s a = some x) : (system path).exec s a (.ok x.1) x.2 := by
  cases a with
  | symlinkMetadata =>
      obtain ⟨e, he, rfl⟩ := Option.map_eq_some_iff.1 h
      exact ⟨by rw [he]; rfl, rfl⟩
  | connect | removeFile =>
      simp only [reply] at h
      split_ifs at h with hsome
      obtain rfl := Option.some.inj h
      exact ⟨hsome, rfl⟩
  | bind =>
      simp only [reply] at h
      split_ifs at h with hnone
      obtain rfl := Option.some.inj h
      exact ⟨hnone, rfl, rfl⟩
  | setPermissions =>
      obtain ⟨e, he, rfl⟩ := Option.map_eq_some_iff.1 h
      exact ⟨e, he, rfl⟩
  | accessIsStillRestricted =>
      obtain rfl := Option.some.inj h
      exact ⟨id, rfl⟩
  | setNonblocking _ | spawn _ | accept _ | dropListener _ | join _ =>
      obtain rfl := Option.some.inj h
      rfl

instance (w : ControlWorld) (e : Event Answer CoreError) : Decidable (Answered w e) :=
  match e with
  | ⟨.connect, .error _⟩ => inferInstanceAs (Decidable (∀ q ∈ w.procs, _ → _))
  | ⟨.connect, .ok _⟩ | ⟨.symlinkMetadata, _⟩ | ⟨.removeFile, _⟩ | ⟨.bind, _⟩ | ⟨.setPermissions, _⟩
  | ⟨.setNonblocking _, _⟩ | ⟨.accessIsStillRestricted, _⟩ | ⟨.spawn _, _⟩ | ⟨.accept _, _⟩
  | ⟨.dropListener _, _⟩ | ⟨.join _, _⟩ => isTrue trivial

/-- The calls that can fail whatever the state is. -/
def mayFail : Action → Bool
  | .symlinkMetadata | .connect => true
  | _ => false

theorem exec_fail {path : Str} (s : State) (a : Action) (e : CoreError) (h : mayFail a = true) :
    (system path).exec s a (.error e) s := by
  cases a <;> first | rfl | cases h

def refusedConnection : CoreError := .io "connection refused".toList

/-- The claims of the first two processes, and the socket that the path names. -/
def outcome (w : ControlWorld) : List (Option Nat) × Option Nat := (w.procs.map claimOf, w.state.named)

/-- The socket of a dead gateway. -/
def deadSocket : State := ⟨some ⟨0, false, true⟩, 1⟩

theorem SingleClaim.of_outcome {w : ControlWorld} (h : SingleClaim w) {claims : List (Option Nat)}
    {named : Option Nat} (hw : outcome w = (claims, named)) :
    (∀ i j : Nat, (claims[i]?.join).isSome → (claims[j]?.join).isSome → i = j) ∧
      ∀ listener, some listener ∈ claims → named = some listener := by
  obtain ⟨hclaims, hnamed⟩ := Prod.mk.inj hw
  have hget : ∀ i : Nat, (claims[i]?.join).isSome →
      ∃ p, w.procs[i]? = some p ∧ (claimOf p).isSome := by
    intro i hi
    rw [← hclaims, List.getElem?_map] at hi
    cases hp : w.procs[i]? with
    | none => simp [hp] at hi
    | some p => exact ⟨p, rfl, by simpa [hp] using hi⟩
  refine ⟨?_, ?_⟩
  · intro i j hi hj
    obtain ⟨p, hp, hpc⟩ := hget i hi
    obtain ⟨q, hq, hqc⟩ := hget j hj
    exact h.one i j p q hp hq hpc hqc
  · intro listener hl
    rw [← hclaims] at hl
    obtain ⟨p, hp, hpl⟩ := List.mem_map.1 hl
    rw [← hnamed]
    exact h.kept p hp listener hpl

instance (w : ControlWorld) (e : Event Answer CoreError) : Decidable (Ordered w e) :=
  match e with
  | ⟨.bind, .ok _⟩ => inferInstanceAs (Decidable (∀ q ∈ w.procs, _ → _))
  | ⟨.bind, .error _⟩ | ⟨.symlinkMetadata, _⟩ | ⟨.connect, _⟩ | ⟨.removeFile, _⟩ | ⟨.setPermissions, _⟩
  | ⟨.setNonblocking _, _⟩ | ⟨.accessIsStillRestricted, _⟩ | ⟨.spawn _, _⟩ | ⟨.accept _, _⟩
  | ⟨.dropListener _, _⟩ | ⟨.join _, _⟩ => isTrue trivial

instance (w : ControlWorld) (p : Process) (e : Event Answer CoreError) : Decidable (Undisturbed w p e) :=
  inferInstanceAs (Decidable (_ ∧ _))

end Tethra.ControlSocket
