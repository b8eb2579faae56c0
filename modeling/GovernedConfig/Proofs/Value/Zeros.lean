import GovernedConfig.Proofs.Value.Records
import GovernedConfig.Value.Basic

/-! # Values without negative zeros

A value with the sign taken from each zero, wherever it stands; names and their order stay.
-/

namespace GovernedConfig.Value

mutual

def unsignedZeros : Value → Value
  | list items => list (allUnsigned items)
  | record entries => record (entriesUnsigned entries)
  | v => v.unsigned

def allUnsigned : List Value → List Value
  | [] => []
  | v :: vs => v.unsignedZeros :: allUnsigned vs

def entriesUnsigned : List (String × Value) → List (String × Value)
  | [] => []
  | (name, v) :: rest => (name, v.unsignedZeros) :: entriesUnsigned rest

end

theorem allUnsigned_eq (items : List Value) : allUnsigned items = items.map unsignedZeros := by
  induction items with
  | nil => rfl
  | cons v items ih => rw [allUnsigned, ih, List.map_cons]

theorem allUnsigned_texts {items : List Value} (ht : ∀ v ∈ items, ∃ s, v = text s) :
    allUnsigned items = items := by
  have hself : ∀ v ∈ items, v.unsignedZeros = id v := by
    intro v hv
    obtain ⟨s, rfl⟩ := ht v hv
    rfl
  rw [allUnsigned_eq, List.map_congr_left hself, List.map_id]

theorem entriesUnsigned_eq (r : Record Value) : entriesUnsigned r = r.mapValues unsignedZeros := by
  induction r with
  | nil => rfl
  | cons entry r ih =>
    obtain ⟨name, v⟩ := entry
    rw [entriesUnsigned, ih]
    rfl

end GovernedConfig.Value
