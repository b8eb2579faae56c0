import GovernedConfig.Act
import GovernedConfig.Calendar
import GovernedConfig.Settings
import GovernedConfig.Shelf

/-! # Surroundings

What every operation may look at and leave traces in: the clock, the environment, the cached
settings, the journal, the marks of the callbacks that ran and the values that are shared.
-/

namespace GovernedConfig

structure Ambient where
  /-- Milliseconds since the epoch. -/
  clock : Binary64
  environment : Record Value := []
  settings : Option Settings := none
  /-- The level name that overrides the threshold of the settings, if anything does. -/
  threshold : Value := .undefined
  /-- What labels the journal entries that are written while it is set. -/
  context : Value := .null
  /-- The journal, oldest entry first. -/
  lines : List String := []
  /-- Callbacks leave marks in the order in which they run. -/
  marks : List String := []
  /-- Refused actions that are going to fail, with what they fail with. -/
  rejections : List (String × Thrown) := []
  /-- How often each counting default has been drawn. -/
  draws : List (Nat × Nat) := []
  shelf : Shelf := {}

namespace Ambient

/-- The settings, read from the environment once they are first asked for. -/
def readSettings : Act Ambient Settings := do
  match (← get).settings with
  | some settings => pure settings
  | none =>
    let settings ← Act.ofExcept (Settings.parse (.record (← get).environment))
    modify fun m => { m with settings := some settings }
    pure settings

def resetSettings (m : Ambient) : Ambient := { m with settings := none }

def seconds (m : Ambient) : Binary64 := Calendar.epochSeconds m.clock

def mark (s : String) (m : Ambient) : Ambient := { m with marks := m.marks ++ [s] }

def stamp : Act Ambient String := do
  match Calendar.stamp? (← get).clock with
  | some s => pure s
  | none => Act.fail .outOfRange

/-- Draws the next number of a counting default, from one up. -/
def draw (key : Nat) : Act Ambient Nat := do
  let drawn := ((← get).draws.lookup key).getD 0
  modify fun m => { m with draws := (key, drawn + 1) :: m.draws.filter (·.1 != key) }
  pure (drawn + 1)

end Ambient

end GovernedConfig
