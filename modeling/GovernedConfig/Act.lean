import GovernedConfig.Fault

/-! # Operations

An operation works on a state and either answers or throws. What it did to its state stays in both
cases, so whoever catches a failure goes on from where the failed operation stopped.
-/

namespace GovernedConfig

/-- An operation on a state that answers or throws. -/
abbrev Act (σ α : Type) := EStateM Thrown σ α

namespace Act

variable {σ τ α β : Type}

def fail (cause : Fault) : Act σ α := throw (.fault cause)

def ofExcept : Except Fault α → Act σ α
  | .ok a => pure a
  | .error cause => fail cause

/-- The answer of something that may be unsuitable. -/
def suitable : Option α → Act σ α
  | some a => pure a
  | none => fail .badType

/-- Runs an operation on a part of the state. -/
def within (part : σ → τ) (put : τ → σ → σ) (act : Act τ α) : Act σ α := fun s =>
  match act (part s) with
  | .ok a t => .ok a (put t s)
  | .error thrown t => .error thrown (put t s)

theorem bind_eq_ok_iff {act : Act σ α} {next : α → Act σ β} {s t : σ} {b : β} :
    (act >>= next) s = .ok b t ↔ ∃ a u, act s = .ok a u ∧ next a u = .ok b t := by
  simp only [Bind.bind, EStateM.bind]
  cases act s <;> simp [and_assoc]

theorem bind_eq_error_iff {act : Act σ α} {next : α → Act σ β} {s t : σ} {thrown : Thrown} :
    (act >>= next) s = .error thrown t ↔
      act s = .error thrown t ∨ ∃ a u, act s = .ok a u ∧ next a u = .error thrown t := by
  simp only [Bind.bind, EStateM.bind]
  cases act s <;> simp [and_assoc]

end Act

end GovernedConfig
