import Tethra.Lib.Interleave

set_option autoImplicit false

/-! # Programs that run alone, and may be cut off

A program runs to its end, with any replies, or is cut off before one of its actions (`Ends`). A program
that keeps an invariant along its actions and ends in `post` leaves what both imply behind (`Ends.post`). -/

namespace Interleave

variable {A : Type} {Ans : A → Type} {ε β γ σ : Type}

/-- A run of the program alone: to its end, or to where it is cut off. -/
inductive Ends (exec : σ → (a : A) → Except ε (Ans a) → σ → Prop) (cut : σ → Prop) :
    Prog Ans ε β → σ → σ → Prop where
  | ret (b : β) (s : σ) : Ends exec cut (.ret b) s s
  | throw (e : ε) (s : σ) : Ends exec cut (.throw e) s s
  | act {a : A} {next : Except ε (Ans a) → Prog Ans ε β} {r : Except ε (Ans a)} {s t u : σ}
      (hexec : exec s a r t) (hrest : Ends exec cut (next r) t u) : Ends exec cut (.act a next) s u
  | cut {a : A} {next : Except ε (Ans a) → Prog Ans ε β} {s : σ} (hcut : cut s) :
      Ends exec cut (.act a next) s s

/-- In every run of the program alone, with any replies, every action meets a state with `I`, and the end
    meets `post`. -/
def EnsuresAlong (exec : σ → (a : A) → Except ε (Ans a) → σ → Prop) (I : σ → Prop) :
    Prog Ans ε β → σ → (Except ε β → σ → Prop) → Prop
  | .ret b, s, post => post (.ok b) s
  | .throw e, s, post => post (.error e) s
  | .act a next, s, post => I s ∧ ∀ r t, exec s a r t → EnsuresAlong exec I (next r) t post

variable {exec : σ → (a : A) → Except ε (Ans a) → σ → Prop} {cut I : σ → Prop} {s : σ}

theorem Ends.post {p : Prog Ans ε β} {t : σ} {J : σ → Prop} (h : Ends exec cut p s t)
    (hp : EnsuresAlong exec I p s fun _ t => J t) (hcut : ∀ s, cut s → I s → J s) : J t := by
  induction h with
  | ret b s => exact hp
  | throw e s => exact hp
  | act hexec _ ih => exact ih (hp.2 _ _ hexec)
  | cut h => exact hcut _ h hp.1

/-- The run in which a handler gives the replies. -/
theorem Ends.run {handler : σ → (a : A) → Except ε (Ans a) × σ}
    (hhandler : ∀ s a, exec s a (handler s a).1 (handler s a).2) (p : Prog Ans ε β) (s : σ) :
    Ends exec cut p s (p.run handler s).2 := by
  induction p generalizing s with
  | ret b => exact .ret b s
  | throw e => exact .throw e s
  | act a next ih => exact .act (hhandler s a) (ih _ _)

theorem EnsuresAlong.mono {p : Prog Ans ε β} {post post' : Except ε β → σ → Prop}
    (h : EnsuresAlong exec I p s post) (himp : ∀ r s, post r s → post' r s) :
    EnsuresAlong exec I p s post' := by
  induction p generalizing s with
  | ret b => exact himp _ _ h
  | throw e => exact himp _ _ h
  | act a next ih => exact ⟨h.1, fun r t hexec => ih r (h.2 r t hexec)⟩

theorem EnsuresAlong.bind {p : Prog Ans ε β} {f : β → Prog Ans ε γ} {mid : Except ε β → σ → Prop}
    {post : Except ε γ → σ → Prop} (h : EnsuresAlong exec I p s mid)
    (hok : ∀ b s, mid (.ok b) s → EnsuresAlong exec I (f b) s post)
    (herr : ∀ e s, mid (.error e) s → post (.error e) s) :
    EnsuresAlong exec I (p >>= f) s post := by
  induction p generalizing s with
  | ret b => exact hok _ _ h
  | throw e => exact herr _ _ h
  | act a next ih => exact ⟨h.1, fun r t hexec => ih r (h.2 r t hexec)⟩

theorem EnsuresAlong.attempt {p : Prog Ans ε β} {post : Except ε (Except ε β) → σ → Prop}
    (h : EnsuresAlong exec I p s fun r s => post (.ok r) s) :
    EnsuresAlong exec I p.attempt s post := by
  induction p generalizing s with
  | ret b => exact h
  | throw e => exact h
  | act a next ih => exact ⟨h.1, fun r t hexec => ih r (h.2 r t hexec)⟩

theorem EnsuresAlong.call {a : A} {post : Except ε (Ans a) → σ → Prop} (hI : I s)
    (h : ∀ r t, exec s a r t → post r t) : EnsuresAlong exec I (Prog.call a) s post := by
  refine ⟨hI, fun r t hexec => ?_⟩
  cases r with
  | ok x => exact h _ _ hexec
  | error e => exact h _ _ hexec

/-- An action and what follows its reply. -/
theorem EnsuresAlong.call_bind {a : A} {f : Ans a → Prog Ans ε γ} {post : Except ε γ → σ → Prop}
    (hI : I s) (hok : ∀ x t, exec s a (.ok x) t → EnsuresAlong exec I (f x) t post)
    (herr : ∀ e t, exec s a (.error e) t → post (.error e) t) :
    EnsuresAlong exec I (Prog.call a >>= f) s post := by
  refine ⟨hI, fun r t hexec => ?_⟩
  cases r with
  | ok x => exact hok x t hexec
  | error e => exact herr e t hexec

/-- An action whose error does not end the program. -/
theorem EnsuresAlong.attempt_bind {a : A} {f : Except ε (Ans a) → Prog Ans ε γ}
    {post : Except ε γ → σ → Prop} (hI : I s)
    (h : ∀ r t, exec s a r t → EnsuresAlong exec I (f r) t post) :
    EnsuresAlong exec I ((Prog.call a).attempt >>= f) s post := by
  refine ⟨hI, fun r t hexec => ?_⟩
  cases r with
  | ok x => exact h _ t hexec
  | error e => exact h _ t hexec

/-! ## One process of a system -/

/-- The first actions of a program with the replies of a handler: what is left, the history, the state. -/
def Prog.perform (handler : σ → (a : A) → Except ε (Ans a) × σ) :
    Nat → Prog Ans ε β → List (Event Ans ε) → σ → Prog Ans ε β × List (Event Ans ε) × σ
  | n + 1, .act a next, history, s =>
      (next (handler s a).1).perform handler n (history ++ [⟨a, (handler s a).1⟩]) (handler s a).2
  | 0, p, history, s => (p, history, s)
  | _ + 1, .ret b, history, s => (.ret b, history, s)
  | _ + 1, .throw e, history, s => (.throw e, history, s)

/-- The first actions of a process are steps. -/
theorem World.steps_perform {Op : Type} {S : System σ Op Ans ε β}
    {handler : σ → (a : A) → Except ε (Ans a) × σ}
    (hhandler : ∀ s a, S.exec s a (handler s a).1 (handler s a).2) (n : Nat) (p : Prog Ans ε β)
    (history : List (Event Ans ε)) {w : World σ Ans ε β} {i : Nat}
    (hp : w.procs[i]? = some ⟨some p, history⟩) :
    ∃ w', Runs.Steps (Step S fun _ _ _ => True) w w' ∧
      w'.state = (p.perform handler n history w.state).2.2 ∧
      w'.procs[i]? = some ⟨some (p.perform handler n history w.state).1,
        (p.perform handler n history w.state).2.1⟩ := by
  induction n generalizing p history w with
  | zero =>
      cases p with
      | _ => exact ⟨w, .refl, rfl, hp⟩
  | succ n ih =>
      cases p with
      | ret b => exact ⟨w, .refl, rfl, hp⟩
      | throw e => exact ⟨w, .refl, rfl, hp⟩
      | act a next =>
          have hstep : Step S (fun _ _ _ => True) w (w.perform (handler w.state a).2 i
              ((⟨some (.act a next), history⟩ : Proc Ans ε β).perform (next (handler w.state a).1)
                ⟨a, (handler w.state a).1⟩) ⟨a, (handler w.state a).1⟩) :=
            .act hp rfl (hhandler w.state a) trivial
          obtain ⟨hlt, _⟩ := List.getElem?_eq_some_iff.1 hp
          have hset : (w.perform (handler w.state a).2 i
              ((⟨some (.act a next), history⟩ : Proc Ans ε β).perform (next (handler w.state a).1)
                ⟨a, (handler w.state a).1⟩) ⟨a, (handler w.state a).1⟩).procs[i]? = some
              ⟨some (next (handler w.state a).1), history ++ [⟨a, (handler w.state a).1⟩]⟩ :=
            List.getElem?_set_self hlt
          obtain ⟨w', hsteps, hstate, hproc⟩ := ih (next (handler w.state a).1)
            (history ++ [⟨a, (handler w.state a).1⟩]) hset
          exact ⟨w', .head hstep hsteps, hstate, hproc⟩

end Interleave
