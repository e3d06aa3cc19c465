import Mathlib.Tactic

/-! Computations that return or fail. The rules below take a sequence of them apart. -/

namespace Outcome
variable {ε α β : Type} {x : Except ε α} {f : α → Except ε β} {e : ε} {b : β}

theorem ok_of_bind (h : x >>= f = .ok b) : ∃ a, x = .ok a ∧ f a = .ok b := by
  cases x with
  | error e => cases h
  | ok a => exact ⟨a, rfl, h⟩

theorem error_of_bind (h : x >>= f = .error e) : x = .error e ∨ ∃ a, x = .ok a ∧ f a = .error e := by
  cases x with
  | error e' =>
    have he : e' = e := Except.error.inj h
    exact Or.inl (congrArg Except.error he)
  | ok a => exact Or.inr ⟨a, rfl, h⟩

theorem bind_eq_error_iff : x >>= f = .error e ↔
    x = .error e ∨ ∃ a, x = .ok a ∧ f a = .error e := by
  constructor
  · exact error_of_bind
  · rintro (rfl | ⟨a, rfl, h⟩)
    · rfl
    · exact h

theorem ok_of_toOption {a : α} (h : x.toOption = some a) : x = .ok a := by
  cases x with
  | error e => cases h
  | ok a' => exact congrArg Except.ok (Option.some_inj.mp h)

theorem ok_of_map_toOption {f : α → β} (h : (x.map f).toOption = some b) :
    ∃ a, x = .ok a ∧ f a = b := by
  cases x with
  | error e => cases h
  | ok a => exact ⟨a, rfl, Option.some_inj.mp h⟩

variable {α' β' : Type} {x' : Except ε α'} {f' : α' → Except ε β'} {R : α → α' → Prop}
  {Q : β → β' → Prop}

/-- Two computations fail alike or return related values. -/
def Rel (R : α → α' → Prop) : Except ε α → Except ε α' → Prop
  | .ok a, .ok b => R a b
  | .error e, .error e' => e = e'
  | .ok _, .error _ | .error _, .ok _ => False

theorem Rel.bind (h : Rel R x x') (hf : ∀ a a', x = .ok a → x' = .ok a' → R a a' →
    Rel Q (f a) (f' a')) : Rel Q (x >>= f) (x' >>= f') := by
  cases x with
  | error e =>
    cases x' with
    | error e' => exact h
    | ok a' => cases h
  | ok a =>
    cases x' with
    | error e' => cases h
    | ok a' => exact hf a a' rfl rfl h

theorem rel_eq_self (x : Except ε α) : Rel (fun a a' => a = a') x x := by
  cases x with
  | error e => rfl
  | ok a => rfl

theorem Rel.map_eq {γ : Type} {g : α → γ} {g' : α' → γ} (h : Rel R x x')
    (hg : ∀ a a', R a a' → g a = g' a') : x.map g = x'.map g' := by
  cases x with
  | error e =>
    cases x' with
    | error e' => exact congrArg Except.error h
    | ok a' => cases h
  | ok a =>
    cases x' with
    | error e' => cases h
    | ok a' => exact congrArg Except.ok (hg a a' h)

end Outcome
