import GovernedConfig.Connection
import GovernedConfig.InfraConfig.Payload
import GovernedConfig.Store.Memory
import GovernedConfig.Store.Server

/-! # Storage

What stores work with: the texts in memory, the key-value server and the connections to it. The
memory store keeps the JSON text of an infra config under its instance id, so what is loaded is
what was saved, however the saved one goes on to change.
-/

namespace GovernedConfig

inductive Link where
  /-- The server itself, while it is up. -/
  | server
  | connection (i : Nat)
  /-- The connection that is shared at the time. -/
  | shared
  deriving DecidableEq

structure Storage where
  ambient : Ambient
  memory : Memory := []
  server : Server := {}
  pool : Pool := {}

namespace Storage

def around {α : Type} (act : Act Ambient α) : Act Storage α :=
  Act.within Storage.ambient (fun m s => { s with ambient := m }) act

def available (s : Storage) : Link → Bool
  | .server => s.server.up
  | .connection i => s.pool.isReady i
  | .shared => s.pool.sharedReady

end Storage

/-- What a store is asked to keep: the text of something and the id to keep it under, as far as it
has them. -/
structure Deposit where
  id : Except Fault Value
  text : Except Fault String

namespace Deposit

def ofInfraConfig (values : Values) : Deposit := ⟨InfraConfig.instanceId values, InfraConfig.serialize values⟩

/-- An entity that is no infra config has neither an instance id nor a text. -/
def ofOther : Deposit := ⟨.ok .undefined, .error .badType⟩

end Deposit

namespace Memory

def save (d : Deposit) : Act Storage Unit := do
  let id ← Act.ofExcept d.id
  let text ← Act.ofExcept d.text
  modify fun s => { s with memory := s.memory.insert id text }

def load (id : Value) : Act Storage (Option Entity) := do
  match (← get).memory.textOf? id with
  | none => pure none
  | some text => do pure (some (← Storage.around (InfraConfig.deserialize text)))

def delete (id : Value) : Act Storage Bool := do
  let found := ((← get).memory.textOf? id).isSome
  modify fun s => { s with memory := s.memory.erase id }
  pure found

end Memory

end GovernedConfig
