import GovernedConfig.Value.Basic

/-! # Shapes of values

What a value may be required to be: a text, a number, one of some texts, a list of values of a shape, or a record of
which something is known by name.
-/

namespace GovernedConfig

namespace Value

def IsText (v : Value) : Prop := ∃ s, v = text s

def IsNumber (v : Value) : Prop := ∃ x, v = number x

def IsOneOf (options : List String) (v : Value) : Prop := ∃ s ∈ options, v = text s

def IsListOf (P : Value → Prop) (v : Value) : Prop := ∃ items, v = list items ∧ ∀ item ∈ items, P item

def IsNullOr (P : Value → Prop) (v : Value) : Prop := v = null ∨ P v

def IsRecord (P : Record Value → Prop) (v : Value) : Prop := ∃ r, v = record r ∧ P r

end Value

def Record.Has (r : Record Value) (name : String) (P : Value → Prop) : Prop := ∃ v, r.lookup name = some v ∧ P v

/-- What a record holds under a name, if it holds anything but `undefined` there, has a property. -/
def Record.MayHave (r : Record Value) (name : String) (P : Value → Prop) : Prop :=
  ∀ v, r.lookup name = some v → v = .undefined ∨ P v

end GovernedConfig
