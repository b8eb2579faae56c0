import GovernedConfig.Proofs.Number.Whole
import GovernedConfig.Value.Basic

/-! # Whole values

The values that stand for integers.
-/

namespace GovernedConfig.Value

/-- A value is a number that equals an integer. -/
def IsWhole (v : Value) (n : Int) : Prop := ∃ x, v = number x ∧ x.equalsInt n = true

theorem IsWhole.unique {v : Value} {m n : Int} (hm : v.IsWhole m) (hn : v.IsWhole n) : m = n := by
  obtain ⟨x, rfl, hx⟩ := hm
  obtain ⟨y, hy, hyn⟩ := hn
  cases hy
  exact Binary64.equalsInt_unique hx hyn

end GovernedConfig.Value
