import GovernedConfig.Store.Hybrid

/-! # Stores of infra configs

A store keeps infra configs in memory, on the key-value server, or in both; the store of a service
does what its settings say.
-/

namespace GovernedConfig

inductive Store where
  | memory
  | remote (r : Remote)
  | hybrid (h : Hybrid)

structure StoreStats where
  kind : String
  healthy : Bool
  count : Option Nat

namespace Store

def save : Store → Deposit → Act Storage Unit
  | memory, d => Memory.save d
  | remote r, d => r.save d
  | hybrid h, d => h.save d

def load : Store → Value → Act Storage (Option Entity)
  | memory, id => Memory.load id
  | remote r, id => r.load id
  | hybrid h, id => h.load id

def delete : Store → Value → Act Storage Bool
  | memory, id => Memory.delete id
  | remote r, id => r.delete id
  | hybrid h, id => h.delete id

def stats (store : Store) (s : Storage) : StoreStats :=
  match store with
  | memory => ⟨"memory", true, some s.memory.length⟩
  | remote r => ⟨"redis", s.available r.link, none⟩
  | hybrid h =>
    match h.remote with
    | some r => ⟨"hybrid", s.available r.link, some s.memory.length⟩
    | none => ⟨"memory", true, some s.memory.length⟩

/-- The store of a service: a hybrid one over the shared connection of the URL, which the settings
give unless it is given. -/
def forService (url : Option (Option String)) : Act Storage Store := do
  let url ← match url with
    | some url => pure url
    | none => do pure (← Storage.around Ambient.readSettings).redisUrl
  let (connection, pool) := (← get).pool.connect url
  modify fun s => { s with pool }
  match connection with
  | none => pure (hybrid ⟨none⟩)
  | some i => do pure (hybrid ⟨some (← Storage.around (Remote.ofOptions (.connection i) .undefined))⟩)

end Store

end GovernedConfig
