import GovernedConfig.Store.Storage

/-! # The store on the server

Texts are kept on the key-value server under prefixed keys. A client that cannot be had and a
command that fails are failures of the store.
-/

namespace GovernedConfig

structure Remote where
  link : Link
  /-- How long texts live, in seconds; nothing above zero keeps them until they are deleted. -/
  ttlSeconds : Value

namespace Remote

variable (r : Remote)

/-- A store on the server; the settings say how long texts live unless it is given. -/
def ofOptions (link : Link) (ttlSeconds : Value) : Act Ambient Remote := do
  if ttlSeconds.isPresent then pure { link, ttlSeconds }
  else pure { link, ttlSeconds := .number (← Ambient.readSettings).ttlSeconds }

def keyOf (id : Value) : Option String := id.toText?.map ("infra-config:" ++ ·)

def require (operation : StoreOperation) (id : Value) : Act Storage Unit := do
  if (← get).available r.link then pure () else Act.fail (.failedStore operation id "Redis unavailable")

/-- Runs a command; its failure is one of the store. -/
def command {α : Type} (operation : StoreOperation) (id : Value) (run : Server → Except Thrown (α × Server)) :
    Act Storage α := do
  match run (← get).server with
  | .ok (a, server) =>
    modify fun s => { s with server }
    pure a
  | .error thrown => Act.fail (.failedStore operation id thrown.summary)

/-- The command that keeps a text for as long as the store says; a time to live that cannot be
compared with zero fails as the command would. -/
def keep (key text : String) (server : Server) : Except Thrown Server :=
  match (Value.number 0).less? r.ttlSeconds with
  | some true => server.writeExpiring key r.ttlSeconds text
  | some false => server.write key text
  | none => .error (.fault .badType)

def save (d : Deposit) : Act Storage Unit := do
  let id ← Act.ofExcept d.id
  r.require .save id
  let key ← Act.suitable (keyOf id)
  let text ← Act.ofExcept d.text
  command .save id fun server => do pure ((), ← r.keep key text server)

def load (id : Value) : Act Storage (Option Entity) := do
  r.require .load id
  let key ← Act.suitable (keyOf id)
  match ← command .load id fun server => do pure (← server.fetch key, server) with
  | none => pure none
  | some text => do pure (some (← Storage.around (InfraConfig.deserialize text)))

def delete (id : Value) : Act Storage Bool := do
  r.require .delete id
  let key ← Act.suitable (keyOf id)
  command .delete id fun server => server.remove key

end Remote

end GovernedConfig
