import Mathlib.Tactic.TypeStar

/-! How a computation that may fail ends, told from how its first step ends. -/
namespace Fallible
variable {ε : Type*} {α β : Type}

theorem ok_bind (a : α) (next : α → Except ε β) : (Except.ok a >>= next) = next a := rfl

theorem error_bind (e : ε) (next : α → Except ε β) : (Except.error e >>= next) = .error e := rfl

/-- It succeeds if both steps do. -/
theorem bind_eq_ok {first : Except ε α} {next : α → Except ε β} {b : β} :
    first >>= next = .ok b ↔ ∃ a, first = .ok a ∧ next a = .ok b :=
  match first with
  | .ok a => by simp [ok_bind]
  | .error e => by simp [error_bind]

/-- It fails at either step. -/
theorem bind_eq_error {first : Except ε α} {next : α → Except ε β} {e : ε} :
    first >>= next = .error e ↔ first = .error e ∨ ∃ a, first = .ok a ∧ next a = .error e :=
  match first with
  | .ok a => by simp [ok_bind]
  | .error e' => by simp [error_bind]

end Fallible
