import GovernedConfig.Fault

/-! # The key-value server

Texts by key, with the time to live that the last expiring write gave a key. Commands may be made
to fail.
-/

namespace GovernedConfig

inductive Command where
  | get
  | set
  | setex
  | del
  deriving DecidableEq

def Command.ofName? (s : String) : Option Command :=
  [("get", Command.get), ("set", .set), ("setex", .setex), ("del", .del)].lookup s

structure Server where
  up : Bool := true
  data : Record String := []
  expiries : Record Value := []
  failures : List (Command × Thrown) := []

namespace Server

variable (s : Server)

def fail (c : Command) (thrown : Thrown) : Server :=
  { s with failures := (c, thrown) :: s.failures.filter (·.1 ≠ c) }

def heal : Server := { s with failures := [] }

/-- Refuses a command that was made to fail. -/
def accept (c : Command) : Except Thrown Unit :=
  match s.failures.lookup c with
  | some thrown => .error thrown
  | none => .ok ()

def put (key text : String) : Server := { s with data := Record.insert s.data key text }

def fetch (key : String) : Except Thrown (Option String) := do
  s.accept .get
  pure (s.data.lookup key)

def write (key text : String) : Except Thrown Server := do
  s.accept .set
  pure (s.put key text)

def writeExpiring (key : String) (seconds : Value) (text : String) : Except Thrown Server := do
  s.accept .setex
  pure { s.put key text with expiries := Record.insert s.expiries key seconds }

def remove (key : String) : Except Thrown (Bool × Server) := do
  s.accept .del
  pure (Record.holds s.data key, { s with data := Record.erase s.data key })

end Server

end GovernedConfig
