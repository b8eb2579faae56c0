import GovernedConfig.Journal
import GovernedConfig.Registry

/-! # Mutability checks

A write-once field takes one present value; a derived field takes writes from construction and from
hooks, never from callers. A refused write is logged before it is thrown.
-/

namespace GovernedConfig

inductive Origin where
  | construction
  | caller
  | hook
  deriving DecidableEq

namespace Registry

variable (r : Registry)

/-- Whether a field that holds `current` may be written; no answer where the declaration of the field
does not tell. A field that cannot be asked what it holds is none to `current`. -/
def canWrite (current : Option Value) (field : String) (origin : Origin) : Except Fault (Option Bool) := do
  match ← r.mutability field with
  | .mutable => pure (some true)
  | .derived => pure (some (origin ≠ .caller))
  | .immutableAfterInit =>
    match current with
    | some v => pure (some !v.isPresent)
    | none => throw .badType
  | .other _ => pure none

def assertWritable (current : Option Value) (field : String) (attempted : Value) (origin : Origin) :
    Act Ambient Unit := do
  if !r.isDeclared field then Act.fail (r.unknown field)
  else if (← Act.ofExcept (r.canWrite current field origin)) = some true then pure ()
  else
    let current ← Act.suitable current
    if (← Act.ofExcept (r.mutability field)) = .derived then
      Journal.warn "derived_field_violation" "Rejected direct write to hook-owned field"
        [("entity", .text r.entityName), ("field", .text field)]
      Act.fail (.derivedField field)
    else
      Journal.warn "immutable_field_violation" "Rejected write to immutable field"
        [("entity", .text r.entityName), ("field", .text field), ("current", current),
          ("attempted", attempted)]
      Act.fail (.refusedWrite field current attempted)

end Registry

end GovernedConfig
