import Tethra.Lib.Runs

set_option autoImplicit false

/-! # Interleaved programs over a shared state

A program is a tree of actions: each next action depends on the replies so far, and a reply may be an
error. Any number of processes run programs of a system; a step performs the next action of one of them
on the shared state, starts a process, or ends one in a crash.

A discipline is an automaton that follows the actions of one process and says which ones it may perform.
That a program obeys it is shown once, by the program's structure (`Obeys.bind`); every action that is
ever performed is then an allowed one (`System.invariant`). -/

namespace Interleave

variable {A : Type} {Ans : A → Type} {ε : Type}

/-! ## Programs -/

inductive Prog (Ans : A → Type) (ε : Type) (β : Type) where
  | ret (b : β)
  | throw (e : ε)
  | act (a : A) (next : Except ε (Ans a) → Prog Ans ε β)

variable {β γ : Type}

def Prog.bind : Prog Ans ε β → (β → Prog Ans ε γ) → Prog Ans ε γ
  | .ret b, f => f b
  | .throw e, _ => .throw e
  | .act a next, f => .act a fun r => (next r).bind f

/-- Run a program and return its error instead of failing. -/
def Prog.attempt : Prog Ans ε β → Prog Ans ε (Except ε β)
  | .ret b => .ret (.ok b)
  | .throw e => .ret (.error e)
  | .act a next => .act a fun r => (next r).attempt

/-- Perform one action, and fail with its error. -/
def Prog.call (a : A) : Prog Ans ε (Ans a) :=
  .act a fun
    | .ok x => .ret x
    | .error e => .throw e

instance : Monad (Prog Ans ε) where
  pure := .ret
  bind := .bind

/-! ## Disciplines -/

/-- An automaton over the actions and replies of one process. -/
structure Discipline (Ans : A → Type) (ε Q : Type) where
  allowed : Q → A → Prop
  next : Q → (a : A) → Except ε (Ans a) → Q

variable {Q : Type} {D : Discipline Ans ε Q}

/-- From `q`, every action of the program is an allowed one whatever the replies are, and the end of
    the program meets `post`. -/
def Obeys (D : Discipline Ans ε Q) : Prog Ans ε β → Q → (Q → Except ε β → Prop) → Prop
  | .ret b, q, post => post q (.ok b)
  | .throw e, q, post => post q (.error e)
  | .act a next, q, post => D.allowed q a ∧ ∀ r, Obeys D (next r) (D.next q a r) post

theorem Obeys.mono {p : Prog Ans ε β} {q : Q} {post post' : Q → Except ε β → Prop}
    (h : Obeys D p q post) (himp : ∀ q r, post q r → post' q r) : Obeys D p q post' := by
  induction p generalizing q with
  | ret b => exact himp _ _ h
  | throw e => exact himp _ _ h
  | act a next ih => exact ⟨h.1, fun r => ih r (h.2 r)⟩

theorem Obeys.bind {p : Prog Ans ε β} {f : β → Prog Ans ε γ} {q : Q}
    {mid : Q → Except ε β → Prop} {post : Q → Except ε γ → Prop} (h : Obeys D p q mid)
    (hok : ∀ q b, mid q (.ok b) → Obeys D (f b) q post)
    (herr : ∀ q e, mid q (.error e) → post q (.error e)) : Obeys D (p >>= f) q post := by
  induction p generalizing q with
  | ret b => exact hok _ _ h
  | throw e => exact herr _ _ h
  | act a next ih => exact ⟨h.1, fun r => ih r (h.2 r)⟩

theorem Obeys.attempt {p : Prog Ans ε β} {q : Q} {post : Q → Except ε (Except ε β) → Prop}
    (h : Obeys D p q fun q r => post q (.ok r)) : Obeys D p.attempt q post := by
  induction p generalizing q with
  | ret b => exact h
  | throw e => exact h
  | act a next ih => exact ⟨h.1, fun r => ih r (h.2 r)⟩

theorem Obeys.call {a : A} {q : Q} {post : Q → Except ε (Ans a) → Prop} (ha : D.allowed q a)
    (hpost : ∀ r, post (D.next q a r) r) : Obeys D (Prog.call a) q post := by
  refine ⟨ha, fun r => ?_⟩
  cases r with
  | ok x => exact hpost (.ok x)
  | error e => exact hpost (.error e)

/-- A performed action and what follows its reply. -/
theorem Obeys.call_bind {a : A} {f : Ans a → Prog Ans ε γ} {q : Q} {post : Q → Except ε γ → Prop}
    (ha : D.allowed q a) (hok : ∀ x, Obeys D (f x) (D.next q a (.ok x)) post)
    (herr : ∀ e, post (D.next q a (.error e)) (.error e)) : Obeys D (Prog.call a >>= f) q post := by
  have hcall : Obeys D (Prog.call a : Prog Ans ε (Ans a)) q fun q' r => q' = D.next q a r :=
    Obeys.call ha fun _ => rfl
  exact hcall.bind (fun _ x hq => hq ▸ hok x) fun _ e hq => hq ▸ herr e

/-- From every state of `P` the program obeys the discipline, and ends in one. -/
def Keeps (D : Discipline Ans ε Q) (P : Q → Prop) (p : Prog Ans ε β) : Prop :=
  ∀ q, P q → Obeys D p q fun q' _ => P q'

section Keeps

variable {P : Q → Prop}

theorem Keeps.ret (b : β) : Keeps D P (.ret b : Prog Ans ε β) := fun _ h => h

theorem Keeps.throw (e : ε) : Keeps D P (.throw e : Prog Ans ε β) := fun _ h => h

theorem Keeps.call {a : A} (h : ∀ q, P q → D.allowed q a ∧ ∀ r, P (D.next q a r)) :
    Keeps D P (Prog.call a : Prog Ans ε (Ans a)) :=
  fun q hq => Obeys.call (h q hq).1 (h q hq).2

theorem Keeps.bind {p : Prog Ans ε β} {f : β → Prog Ans ε γ} (h : Keeps D P p)
    (hf : ∀ b, Keeps D P (f b)) : Keeps D P (p >>= f) :=
  fun q hq => (h q hq).bind (fun q' b hq' => hf b q' hq') fun _ _ hq' => hq'

theorem Keeps.attempt {p : Prog Ans ε β} (h : Keeps D P p) : Keeps D P p.attempt :=
  fun q hq => (h q hq).attempt

end Keeps

/-! ## Processes -/

/-- An action that was performed, with its reply. -/
abbrev Event (Ans : A → Type) (ε : Type) := (a : A) × Except ε (Ans a)

/-- A process: what is left of its program, unless it crashed, and what it has performed. -/
structure Proc (Ans : A → Type) (ε β : Type) where
  prog : Option (Prog Ans ε β)
  history : List (Event Ans ε)

/-- What the automaton knows behind the actions of a process. -/
def Proc.knows (D : Discipline Ans ε Q) (start : Q) (p : Proc Ans ε β) : Q :=
  p.history.foldl (fun q e => D.next q e.1 e.2) start

/-- The shared state, the processes, and every action that was performed. -/
structure World (σ : Type) (Ans : A → Type) (ε β : Type) where
  state : σ
  procs : List (Proc Ans ε β)
  trace : List (Event Ans ε)

structure System (σ Op : Type) (Ans : A → Type) (ε β : Type) where
  program : Op → Prog Ans ε β
  /-- The replies that an action can have, with the state behind each. -/
  exec : σ → (a : A) → Except ε (Ans a) → σ → Prop

variable {σ Op : Type}

def Proc.perform (p : Proc Ans ε β) (next : Prog Ans ε β) (e : Event Ans ε) : Proc Ans ε β :=
  ⟨some next, p.history ++ [e]⟩

def World.perform (w : World σ Ans ε β) (state : σ) (i : Nat) (p : Proc Ans ε β) (e : Event Ans ε) :
    World σ Ans ε β :=
  ⟨state, w.procs.set i p, w.trace ++ [e]⟩

/-- The steps; those that perform an action meet `cond`. -/
inductive Step (S : System σ Op Ans ε β) (cond : World σ Ans ε β → Proc Ans ε β → Event Ans ε → Prop) :
    World σ Ans ε β → World σ Ans ε β → Prop
  | start (w : World σ Ans ε β) (op : Op) :
      Step S cond w { w with procs := w.procs ++ [⟨some (S.program op), []⟩] }
  | act {w : World σ Ans ε β} {i : Nat} {p : Proc Ans ε β} {a : A}
      {next : Except ε (Ans a) → Prog Ans ε β} {r : Except ε (Ans a)} {state : σ}
      (hp : w.procs[i]? = some p) (hprog : p.prog = some (.act a next))
      (hexec : S.exec w.state a r state) (hcond : cond w p ⟨a, r⟩) :
      Step S cond w (w.perform state i (p.perform (next r) ⟨a, r⟩) ⟨a, r⟩)
  | crash {w : World σ Ans ε β} {i : Nat} {p : Proc Ans ε β} (hp : w.procs[i]? = some p) :
      Step S cond w { w with procs := w.procs.set i ⟨none, p.history⟩ }

/-- A state without processes. -/
def World.initial (state : σ) : World σ Ans ε β := ⟨state, [], []⟩

@[simp] theorem Proc.knows_perform (D : Discipline Ans ε Q) (start : Q) (p : Proc Ans ε β)
    (next : Prog Ans ε β) (e : Event Ans ε) :
    (p.perform next e).knows D start = D.next (p.knows D start) e.1 e.2 := by
  simp [knows, perform]

/-- What holds of every process, and of one that is started, holds behind the start. -/
theorem forall_procs_start {P : Proc Ans ε β → Prop} {w : World σ Ans ε β} (h : ∀ q ∈ w.procs, P q)
    {p : Proc Ans ε β} (hp : P p) : ∀ q ∈ w.procs ++ [p], P q := by
  intro q hq
  rcases List.mem_append.1 hq with hq | hq
  · exact h q hq
  · rw [List.mem_singleton.1 hq]
    exact hp

/-- What holds of every process, and of what one of them becomes, holds behind the change. -/
theorem forall_procs_set {P : Proc Ans ε β → Prop} {w : World σ Ans ε β} (h : ∀ q ∈ w.procs, P q)
    {i : Nat} {p : Proc Ans ε β} (hp : P p) : ∀ q ∈ w.procs.set i p, P q := by
  intro q hq
  rcases List.mem_or_eq_of_mem_set hq with hq | rfl
  · exact h q hq
  · exact hp

/-- A process behind a change is the one that changed, or another that was there. -/
theorem getElem?_procs_set {ps : List (Proc Ans ε β)} {i j : Nat} {p q : Proc Ans ε β}
    (h : (ps.set i p)[j]? = some q) : j = i ∧ q = p ∨ j ≠ i ∧ ps[j]? = some q := by
  rw [List.getElem?_set] at h
  by_cases hj : i = j
  · rw [if_pos hj] at h
    split_ifs at h
    exact .inl ⟨hj.symm, (Option.some.inj h).symm⟩
  · rw [if_neg hj] at h
    exact .inr ⟨fun h' => hj h'.symm, h⟩

variable {S : System σ Op Ans ε β} {cond : World σ Ans ε β → Proc Ans ε β → Event Ans ε → Prop}

/-- A run whose actions meet a condition meets any weaker one. -/
theorem Step.mono {cond' : World σ Ans ε β → Proc Ans ε β → Event Ans ε → Prop}
    (h : ∀ w p e, cond w p e → cond' w p e) {w w' : World σ Ans ε β} (hstep : Step S cond w w') :
    Step S cond' w w' := by
  cases hstep with
  | start op => exact .start w op
  | act hp hprog hexec hcond => exact .act hp hprog hexec (h _ _ _ hcond)
  | crash hp => exact .crash hp

/-- The rest of every process obeys the discipline from what the process knows. -/
def World.Conforms (D : Discipline Ans ε Q) (start : Q) (w : World σ Ans ε β) : Prop :=
  ∀ p ∈ w.procs, ∀ prog, p.prog = some prog → Obeys D prog (p.knows D start) fun _ _ => True

theorem World.Conforms.step {start : Q}
    (hprograms : ∀ op, Obeys D (S.program op) start fun _ _ => True) {w w' : World σ Ans ε β}
    (h : w.Conforms D start) (hstep : Step S cond w w') : w'.Conforms D start := by
  cases hstep with
  | start op =>
      refine forall_procs_start h fun prog hprog => ?_
      obtain rfl := Option.some.inj hprog
      exact hprograms op
  | act hp hprog hexec hcond =>
      refine forall_procs_set h fun prog hnext => ?_
      obtain rfl := Option.some.inj hnext
      rw [Proc.knows_perform]
      exact (h _ (List.mem_of_getElem? hp) _ hprog).2 _
  | crash hp => exact forall_procs_set h fun prog hprog => by cases hprog

/-- In every run of programs that obey the discipline, what is left of them obeys it. -/
theorem System.conforms {start : Q} (hprograms : ∀ op, Obeys D (S.program op) start fun _ _ => True)
    {state : σ} {w : World σ Ans ε β} (h : Runs.Steps (Step S cond) (World.initial state) w) :
    w.Conforms D start :=
  Runs.Steps.invariant (fun _ _ hu hstep => hu.step hprograms hstep) (fun _ hp => by cases hp) h

/-- What holds without processes, and is kept by starts, crashes and allowed actions, holds in every
    run of programs that obey the discipline. -/
theorem System.invariant (D : Discipline Ans ε Q) (start : Q) {I : World σ Ans ε β → Prop}
    (hprograms : ∀ op, Obeys D (S.program op) start fun _ _ => True)
    (hstart : ∀ w op, I w → I { w with procs := w.procs ++ [⟨some (S.program op), []⟩] })
    (hact : ∀ (w : World σ Ans ε β) (i : Nat) (p : Proc Ans ε β) (a : A)
      (next : Except ε (Ans a) → Prog Ans ε β) (r : Except ε (Ans a)) (state : σ),
      I w → w.procs[i]? = some p → p.prog = some (.act a next) → D.allowed (p.knows D start) a →
        S.exec w.state a r state → cond w p ⟨a, r⟩ →
          I (w.perform state i (p.perform (next r) ⟨a, r⟩) ⟨a, r⟩))
    (hcrash : ∀ (w : World σ Ans ε β) (i : Nat) (p : Proc Ans ε β), I w → w.procs[i]? = some p →
      I { w with procs := w.procs.set i ⟨none, p.history⟩ })
    {state : σ} (hinit : I (World.initial state)) {w : World σ Ans ε β}
    (h : Runs.Steps (Step S cond) (World.initial state) w) : I w := by
  have hboth : w.Conforms D start ∧ I w := by
    refine Runs.Steps.invariant (I := fun w => w.Conforms D start ∧ I w) ?_ ⟨?_, hinit⟩ h
    · rintro u v ⟨hconf, hu⟩ hstep
      refine ⟨hconf.step hprograms hstep, ?_⟩
      cases hstep with
      | start op => exact hstart u op hu
      | act hp hprog hexec hcond =>
          have hallowed := (hconf _ (List.mem_of_getElem? hp) _ hprog).1
          exact hact _ _ _ _ _ _ _ hu hp hprog hallowed hexec hcond
      | crash hp => exact hcrash _ _ _ hu hp
    · intro p hp
      cases hp
  exact hboth.2

/-! ## Programs alone -/

section Ensures

variable (exec : σ → (a : A) → Except ε (Ans a) → σ → Prop)

/-- In every run of the program alone, with any replies, the end meets `post`. -/
def Ensures : Prog Ans ε β → σ → (Except ε β → σ → Prop) → Prop
  | .ret b, s, post => post (.ok b) s
  | .throw e, s, post => post (.error e) s
  | .act a next, s, post => ∀ r s', exec s a r s' → Ensures (next r) s' post

variable {exec} {s : σ}

theorem Ensures.mono {p : Prog Ans ε β} {post post' : Except ε β → σ → Prop}
    (h : Ensures exec p s post) (himp : ∀ r s, post r s → post' r s) : Ensures exec p s post' := by
  induction p generalizing s with
  | ret b => exact himp _ _ h
  | throw e => exact himp _ _ h
  | act a next ih => exact fun r s' hexec => ih r (h r s' hexec)

theorem Ensures.bind {p : Prog Ans ε β} {f : β → Prog Ans ε γ} {mid : Except ε β → σ → Prop}
    {post : Except ε γ → σ → Prop} (h : Ensures exec p s mid)
    (hok : ∀ b s, mid (.ok b) s → Ensures exec (f b) s post)
    (herr : ∀ e s, mid (.error e) s → post (.error e) s) : Ensures exec (p >>= f) s post := by
  induction p generalizing s with
  | ret b => exact hok _ _ h
  | throw e => exact herr _ _ h
  | act a next ih => exact fun r s' hexec => ih r (h r s' hexec)

theorem Ensures.attempt {p : Prog Ans ε β} {post : Except ε (Except ε β) → σ → Prop}
    (h : Ensures exec p s fun r s => post (.ok r) s) : Ensures exec p.attempt s post := by
  induction p generalizing s with
  | ret b => exact h
  | throw e => exact h
  | act a next ih => exact fun r s' hexec => ih r (h r s' hexec)

theorem Ensures.call {a : A} {post : Except ε (Ans a) → σ → Prop}
    (h : ∀ r s', exec s a r s' → post r s') : Ensures exec (Prog.call a) s post := by
  intro r s' hexec
  cases r with
  | ok x => exact h _ _ hexec
  | error e => exact h _ _ hexec

/-- The run in which a handler gives the replies. -/
def Prog.run (handler : σ → (a : A) → Except ε (Ans a) × σ) : Prog Ans ε β → σ → Except ε β × σ
  | .ret b, s => (.ok b, s)
  | .throw e, s => (.error e, s)
  | .act a next, s => (next (handler s a).1).run handler (handler s a).2

theorem Ensures.run {handler : σ → (a : A) → Except ε (Ans a) × σ} {p : Prog Ans ε β}
    {post : Except ε β → σ → Prop} (h : Ensures exec p s post)
    (hhandler : ∀ s a, exec s a (handler s a).1 (handler s a).2) :
    post (p.run handler s).1 (p.run handler s).2 := by
  induction p generalizing s with
  | ret b => exact h
  | throw e => exact h
  | act a next ih => exact ih _ (h _ _ (hhandler s a))

end Ensures

/-! ## Schedules -/

/-- A turn of a schedule: a process is started, or performs so many actions. -/
inductive Turn (Op : Type) where
  | start (op : Op)
  | act (i times : Nat)

section Schedule

variable (S : System σ Op Ans ε β)
  (cond : World σ Ans ε β → Proc Ans ε β → Event Ans ε → Prop) [∀ w p e, Decidable (cond w p e)]
  (reply : σ → (a : A) → Option (Ans a × σ))

/-- One action of a process, with a successful reply, when the condition holds. -/
def World.act (w : World σ Ans ε β) (i : Nat) : Option (World σ Ans ε β) :=
  match w.procs[i]? with
  | some ⟨some (.act a next), history⟩ =>
      match reply w.state a with
      | some (x, state) =>
          let p : Proc Ans ε β := ⟨some (.act a next), history⟩
          if cond w p ⟨a, .ok x⟩ then
            some (w.perform state i (p.perform (next (.ok x)) ⟨a, .ok x⟩) ⟨a, .ok x⟩)
          else none
      | none => none
  | _ => none

def World.acts (i : Nat) : Nat → World σ Ans ε β → Option (World σ Ans ε β)
  | 0, w => some w
  | n + 1, w => (w.act cond reply i).bind (acts i n)

def World.turn (w : World σ Ans ε β) : Turn Op → Option (World σ Ans ε β)
  | .start op => some { w with procs := w.procs ++ [⟨some (S.program op), []⟩] }
  | .act i times => w.acts cond reply i times

def World.schedule : List (Turn Op) → World σ Ans ε β → Option (World σ Ans ε β)
  | [], w => some w
  | t :: turns, w => (w.turn S cond reply t).bind (schedule turns)

variable {S cond reply}

/-- An action with its reply is a step. -/
theorem World.step_act
    (hreply : ∀ state a x, reply state a = some x → S.exec state a (.ok x.1) x.2)
    {w w' : World σ Ans ε β} {i : Nat} (h : w.act cond reply i = some w') : Step S cond w w' := by
  unfold World.act at h
  split at h
  · rename_i a next history hp
    split at h
    · rename_i x state hx
      dsimp only at h
      split_ifs at h with hcond
      obtain rfl := Option.some.inj h
      exact .act hp rfl (hreply _ _ _ hx) hcond
    · cases h
  · cases h

/-- A schedule is a run. -/
theorem World.steps_schedule
    (hreply : ∀ state a x, reply state a = some x → S.exec state a (.ok x.1) x.2)
    {turns : List (Turn Op)} {w w' : World σ Ans ε β}
    (h : w.schedule S cond reply turns = some w') : Runs.Steps (Step S cond) w w' := by
  have hacts : ∀ (n : Nat) {w w' : World σ Ans ε β} {i : Nat}, w.acts cond reply i n = some w' →
      Runs.Steps (Step S cond) w w' := by
    intro n
    induction n with
    | zero =>
        intro w w' i h
        obtain rfl := Option.some.inj h
        exact .refl
    | succ n ih =>
        intro w w' i h
        obtain ⟨v, hv, hrest⟩ := Option.bind_eq_some_iff.1 h
        exact .head (World.step_act hreply hv) (ih hrest)
  induction turns generalizing w with
  | nil =>
      obtain rfl := Option.some.inj h
      exact .refl
  | cons t turns ih =>
      obtain ⟨v, hv, hrest⟩ := Option.bind_eq_some_iff.1 h
      refine .trans ?_ (ih hrest)
      cases t with
      | start op =>
          obtain rfl := Option.some.inj hv
          exact .single (.start w op)
      | act i times => exact hacts times hv

end Schedule

/-- A turn, or an action of a process that fails. -/
inductive Move (Op ε : Type) where
  | turn (t : Turn Op)
  | fail (i : Nat) (e : ε)

section Play

variable (S : System σ Op Ans ε β)
  (cond : World σ Ans ε β → Proc Ans ε β → Event Ans ε → Prop) [∀ w p e, Decidable (cond w p e)]
  (reply : σ → (a : A) → Option (Ans a × σ)) (mayFail : A → Bool)

/-- The next action of a process fails and leaves the state as it is. -/
def World.failAct (w : World σ Ans ε β) (i : Nat) (e : ε) : Option (World σ Ans ε β) :=
  match w.procs[i]? with
  | some ⟨some (.act a next), history⟩ =>
      let p : Proc Ans ε β := ⟨some (.act a next), history⟩
      if mayFail a = true ∧ cond w p ⟨a, .error e⟩ then
        some (w.perform w.state i (p.perform (next (.error e)) ⟨a, .error e⟩) ⟨a, .error e⟩)
      else none
  | _ => none

def World.move (w : World σ Ans ε β) : Move Op ε → Option (World σ Ans ε β)
  | .turn t => w.turn S cond reply t
  | .fail i e => w.failAct cond mayFail i e

def World.play : List (Move Op ε) → World σ Ans ε β → Option (World σ Ans ε β)
  | [], w => some w
  | m :: moves, w => (w.move S cond reply mayFail m).bind (play moves)

variable {S cond reply mayFail}

/-- A list of moves is a run. -/
theorem World.steps_play
    (hreply : ∀ state a x, reply state a = some x → S.exec state a (.ok x.1) x.2)
    (hfail : ∀ state a e, mayFail a = true → S.exec state a (.error e) state)
    {moves : List (Move Op ε)} {w w' : World σ Ans ε β}
    (h : w.play S cond reply mayFail moves = some w') : Runs.Steps (Step S cond) w w' := by
  induction moves generalizing w with
  | nil =>
      obtain rfl := Option.some.inj h
      exact .refl
  | cons m moves ih =>
      obtain ⟨v, hv, hrest⟩ := Option.bind_eq_some_iff.1 h
      refine .trans ?_ (ih hrest)
      cases m with
      | turn t =>
          have hturn : w.schedule S cond reply [t] = some v := by
            simpa [World.schedule, World.move] using hv
          exact World.steps_schedule hreply hturn
      | fail i e =>
          simp only [World.move, World.failAct] at hv
          split at hv
          · rename_i a next history hp
            split_ifs at hv with hcond
            obtain rfl := Option.some.inj hv
            exact .single (.act hp rfl (hfail _ _ _ hcond.1) hcond.2)
          · cases hv

end Play

end Interleave
