import Tethra.Lib.Interleave

set_option autoImplicit false

/-! # Programs under interference

One relation says what the actions of every process may do to the shared state. A program tolerates it when
it keeps to the relation itself and its result still holds behind any moves of the others (`Tolerates`); in
every run of such programs each finished process has a result that holds now (`System.tolerates`). -/

namespace Interleave

variable {A : Type} {Ans : A → Type} {ε β γ σ Op : Type}

section

variable (exec : σ → (a : A) → Except ε (Ans a) → σ → Prop) (cond : σ → Event Ans ε → Prop)
  (rely : σ → σ → Prop)

/-- From a state on, with moves of the others in between: the program's actions keep to the relation, and
    its end meets `post` in every later state. -/
def Tolerates : Prog Ans ε β → σ → (Except ε β → σ → Prop) → Prop
  | .ret b, s, post => ∀ t, rely s t → post (.ok b) t
  | .throw e, s, post => ∀ t, rely s t → post (.error e) t
  | .act a next, s, post => ∀ t, rely s t → ∀ r u, exec t a r u → cond t ⟨a, r⟩ →
      rely t u ∧ Tolerates (next r) u post

end

variable {exec : σ → (a : A) → Except ε (Ans a) → σ → Prop} {cond : σ → Event Ans ε → Prop}
  {rely : σ → σ → Prop}

/-- What is tolerated from a state is tolerated from the later ones. -/
theorem Tolerates.later (htrans : ∀ s t u, rely s t → rely t u → rely s u) {p : Prog Ans ε β} {s t : σ}
    {post : Except ε β → σ → Prop} (h : Tolerates exec cond rely p s post) (hst : rely s t) :
    Tolerates exec cond rely p t post := by
  cases p with
  | ret b => exact fun u htu => h u (htrans s t u hst htu)
  | throw e => exact fun u htu => h u (htrans s t u hst htu)
  | act a next => exact fun u htu => h u (htrans s t u hst htu)

theorem Tolerates.bind (hrefl : ∀ s, rely s s) {p : Prog Ans ε β} {f : β → Prog Ans ε γ} {s : σ}
    {mid : Except ε β → σ → Prop} {post : Except ε γ → σ → Prop}
    (h : Tolerates exec cond rely p s mid)
    (hok : ∀ b t, mid (.ok b) t → Tolerates exec cond rely (f b) t post)
    (herr : ∀ e t, mid (.error e) t → post (.error e) t) :
    Tolerates exec cond rely (p >>= f) s post := by
  induction p generalizing s with
  | ret b => exact hok b s (h s (hrefl s))
  | throw e => exact fun t hst => herr e t (h t hst)
  | act a next ih =>
      intro t hst r u hexec hcond
      obtain ⟨hrely, hrest⟩ := h t hst r u hexec hcond
      exact ⟨hrely, ih r hrest⟩

/-- An action whose replies are followed by tolerated programs. -/
theorem Tolerates.call_bind {a : A} {f : Ans a → Prog Ans ε γ} {s : σ} {post : Except ε γ → σ → Prop}
    (h : ∀ t, rely s t → ∀ r u, exec t a r u → cond t ⟨a, r⟩ → rely t u ∧ match r with
      | .ok x => Tolerates exec cond rely (f x) u post
      | .error e => ∀ v, rely u v → post (.error e) v) :
    Tolerates exec cond rely (Prog.call a >>= f) s post := by
  intro t hst r u hexec hcond
  obtain ⟨hrely, hrest⟩ := h t hst r u hexec hcond
  refine ⟨hrely, ?_⟩
  cases r with
  | ok x => exact hrest
  | error e => exact hrest

/-- In every run of programs that tolerate the relation from wherever they start, what is left of each
    process tolerates it from now on. -/
theorem System.tolerates {S : System σ Op Ans ε β} (hrefl : ∀ s, rely s s)
    (htrans : ∀ s t u, rely s t → rely t u → rely s u) {post : Except ε β → σ → Prop}
    (hprograms : ∀ op s, Tolerates S.exec cond rely (S.program op) s post) {state : σ}
    {w : World σ Ans ε β}
    (h : Runs.Steps (Step S fun w _ e => cond w.state e) (World.initial state) w) :
    ∀ p ∈ w.procs, ∀ prog, p.prog = some prog → Tolerates S.exec cond rely prog w.state post := by
  refine Runs.Steps.invariant (I := fun w => ∀ p ∈ w.procs, ∀ prog, p.prog = some prog →
    Tolerates S.exec cond rely prog w.state post) ?_ (fun p hp => by cases hp) h
  intro w w' hw hstep
  cases hstep with
  | start op =>
      refine forall_procs_start hw fun prog hprog => ?_
      obtain rfl := Option.some.inj hprog
      exact hprograms op w.state
  | act hp hprog hexec hcond =>
      obtain ⟨hmove, hrest⟩ := hw _ (List.mem_of_getElem? hp) _ hprog _ (hrefl _) _ _ hexec hcond
      -- the others tolerate the move, and the process goes on from behind it
      have hothers : ∀ q ∈ w.procs, ∀ prog, q.prog = some prog →
          Tolerates S.exec cond rely prog _ post :=
        fun q hq prog hqprog => (hw q hq prog hqprog).later htrans hmove
      refine forall_procs_set hothers fun prog hnext => ?_
      obtain rfl := Option.some.inj hnext
      exact hrest
  | crash hp => exact forall_procs_set hw fun prog hprog => by cases hprog

/-- The result of a finished process holds in every state that is reached. -/
theorem System.result_holds {S : System σ Op Ans ε β} (hrefl : ∀ s, rely s s)
    (htrans : ∀ s t u, rely s t → rely t u → rely s u) {post : Except ε β → σ → Prop}
    (hprograms : ∀ op s, Tolerates S.exec cond rely (S.program op) s post) {state : σ}
    {w : World σ Ans ε β}
    (h : Runs.Steps (Step S fun w _ e => cond w.state e) (World.initial state) w)
    {p : Proc Ans ε β} (hp : p ∈ w.procs) {b : β} (hret : p.prog = some (.ret b)) :
    post (.ok b) w.state :=
  System.tolerates hrefl htrans hprograms h p hp _ hret w.state (hrefl _)

end Interleave
