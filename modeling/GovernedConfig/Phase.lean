/-! # Lifecycle phases

An entity is constructing until its construction hooks have passed; from then on it is ready, and
every write is governed.
-/

namespace GovernedConfig

inductive Phase where
  | constructing
  | ready
  deriving DecidableEq

namespace Phase

def name : Phase → String
  | constructing => "CONSTRUCTING"
  | ready => "READY"

def ofName? (s : String) : Option Phase :=
  [constructing, ready].find? fun p => p.name == s

theorem ofName?_name (p : Phase) : ofName? p.name = some p := by cases p <;> rfl

def description : Phase → String
  | constructing => "Initial and default values are being written; no update hooks fire"
  | ready => "Construction hooks passed; every write is governed"

def acceptsUpdates : Phase → Bool
  | constructing => false
  | ready => true

def successors : Phase → List Phase
  | constructing => [ready]
  | ready => []

def canBecome (origin target : Phase) : Bool := origin.successors.contains target

end Phase

end GovernedConfig
