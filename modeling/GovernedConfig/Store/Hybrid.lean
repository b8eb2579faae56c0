import GovernedConfig.Store.Remote

/-! # The hybrid store

A memory copy is written first and read last, so that an outage of the server degrades the store
to its memory. What the texts themselves are guilty of is passed on.
-/

namespace GovernedConfig

/-- A memory copy of everything, with a copy on the server if there is one. -/
structure Hybrid where
  remote : Option Remote

namespace Hybrid

variable (h : Hybrid)

/-- Logs a failure of the server and goes on; anything else is passed on. -/
def degrade (operation : StoreOperation) (id : Value) (thrown : Thrown) : Act Storage Unit :=
  match thrown with
  | .fault (.store failed failedId reason) =>
    Storage.around (Journal.warn "infra_config_store_degraded" "Redis unavailable, using in-memory snapshot"
      [("operation", .text operation.name), ("instanceId", id),
        ("error", .text (Fault.store failed failedId reason).message)])
  | thrown => throw thrown

/-- The second step of a save: writes the text of the moment to the server. -/
def replicate (d : Deposit) : Act Storage Unit := do
  match h.remote with
  | none => pure ()
  | some r =>
    try
      r.save d
    catch thrown =>
      degrade .save (← Act.ofExcept d.id) thrown

def save (d : Deposit) : Act Storage Unit := do
  Memory.save d
  h.replicate d

/-- What the server has, if it can be asked and has something. -/
def loadRemote (id : Value) : Act Storage (Option Entity) := do
  match h.remote with
  | none => pure none
  | some r =>
    if (← get).available r.link then
      try
        r.load id
      catch thrown =>
        degrade .load id thrown
        pure none
    else pure none

def load (id : Value) : Act Storage (Option Entity) := do
  match ← h.loadRemote id with
  | some e => pure (some e)
  | none => Memory.load id

def delete (id : Value) : Act Storage Bool := do
  let removed ← Memory.delete id
  match h.remote with
  | none => pure removed
  | some r =>
    try
      pure ((← r.delete id) || removed)
    catch thrown =>
      degrade .delete id thrown
      pure removed

end Hybrid

end GovernedConfig
