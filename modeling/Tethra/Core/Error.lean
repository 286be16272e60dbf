import Tethra.Lib.Text

set_option autoImplicit false

/-! # Errors (`core/src/error.rs`)

The errors that the modelled operations return, with their data. -/

namespace Tethra

abbrev Str := List Char

instance instLawfulBEqStr : LawfulBEq Str := inferInstance

inductive CoreError where
  | projectLocked (project : Str)
  | wrongPassword
  | vaultExists (path : Str)
  | sessionMissing
  | sessionExpired
  | sessionInvalid
  | notFound (kind : String) (ident : Str)
  | alreadyExists (kind : String) (ident : Str)
  | invalidInput (message : Str)
  | unsupported (provider : Str) (capability : String) (hint : Str)
  | crypto (context : String)
  | stateConflict (kind : String) (ident : Str)
  | db (message : Str)
  | io (message : Str)
  | backupInvalid (message : Str)
  | schemaTooNew (found supported : Int)
  | schemaNotCurrent (found supported : Int)
  | vaultCorrupted (context : String)
  | ambiguous (kind : String) (ident : Str)
  | busy
  deriving DecidableEq, Repr

/-- A computation that succeeds succeeded in its first step. -/
theorem bind_eq_ok {ε α β : Type} {x : Except ε α} {f : α → Except ε β} {b : β} :
    (x >>= f) = .ok b ↔ ∃ a, x = .ok a ∧ f a = .ok b := by
  cases x with
  | error e => simp [bind, Except.bind]
  | ok a => simp [bind, Except.bind]

theorem mapM_cons_eq_ok {ε α β : Type} {f : α → Except ε β} {a : α} {as : List α} {bs : List β} :
    (a :: as).mapM f = .ok bs ↔ ∃ b bs', f a = .ok b ∧ as.mapM f = .ok bs' ∧ bs = b :: bs' := by
  rw [List.mapM_cons, bind_eq_ok]
  constructor
  · rintro ⟨b, hb, hrest⟩
    obtain ⟨bs', hbs, hpure⟩ := bind_eq_ok.1 hrest
    exact ⟨b, bs', hb, hbs, (Except.ok.inj hpure).symm⟩
  · rintro ⟨b, bs', hb, hbs, rfl⟩
    exact ⟨b, hb, bind_eq_ok.2 ⟨bs', hbs, rfl⟩⟩

/-- A computation of which something is known succeeded. -/
theorem exists_ok_of_map {ε α β : Type} {x : Except ε α} {f : α → β} {b : β}
    (h : x.toOption.map f = some b) : ∃ a, x = .ok a ∧ f a = b := by
  cases x with
  | error e => cases h
  | ok a => exact ⟨a, rfl, Option.some.inj h⟩

/-- What `mapM` returns corresponds element by element. -/
theorem forall₂_of_mapM {ε α β : Type} {f : α → Except ε β} {as : List α} {bs : List β}
    (h : as.mapM f = .ok bs) : List.Forall₂ (fun a b => f a = .ok b) as bs := by
  induction as generalizing bs with
  | nil =>
      rw [List.mapM_nil] at h
      rw [← Except.ok.inj h]
      exact List.Forall₂.nil
  | cons a as ih =>
      obtain ⟨b, bs', hb, hbs, rfl⟩ := mapM_cons_eq_ok.1 h
      exact List.Forall₂.cons hb (ih hbs)

/-! ## Lists that correspond -/

section Correspond

variable {α β γ : Type} {R : α → β → Prop} {as : List α} {bs : List β}

theorem map_eq_of_forall₂ {f : α → γ} {g : β → γ} (h : List.Forall₂ R as bs)
    (hR : ∀ a b, R a b → f a = g b) : as.map f = bs.map g := by
  induction h with
  | nil => rfl
  | cons hab _ ih => rw [List.map_cons, List.map_cons, hR _ _ hab, ih]

theorem exists_left_of_forall₂ (h : List.Forall₂ R as bs) {b : β} (hb : b ∈ bs) :
    ∃ a ∈ as, R a b := by
  induction h with
  | nil => cases hb
  | cons hab _ ih =>
      rcases List.mem_cons.1 hb with rfl | hb
      · exact ⟨_, List.mem_cons_self .., hab⟩
      · obtain ⟨a, ha, hR⟩ := ih hb
        exact ⟨a, List.mem_cons_of_mem _ ha, hR⟩

theorem exists_right_of_forall₂ (h : List.Forall₂ R as bs) {a : α} (ha : a ∈ as) :
    ∃ b ∈ bs, R a b :=
  exists_left_of_forall₂ h.flip ha

end Correspond

end Tethra
