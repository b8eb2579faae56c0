import GovernedConfig.Value.Basic

/-! # Texts in memory

The texts that a process keeps by instance id. Writing an id that is already there keeps its
position.
-/

namespace GovernedConfig

abbrev Memory := List (Value × String)

namespace Memory

variable (m : Memory)

def textOf? (id : Value) : Option String := (List.find? (fun entry => id.sameKey entry.1) m).map Prod.snd

def insert (id : Value) (text : String) : Memory :=
  if m.any fun entry => id.sameKey entry.1 then
    m.map fun entry => if id.sameKey entry.1 then (entry.1, text) else entry
  else m ++ [(id, text)]

def erase (id : Value) : Memory := m.filter fun entry => !id.sameKey entry.1

end Memory

end GovernedConfig
