import GovernedConfig.Value.Basic

/-! # Protocols of private matching

Several keys per row are matched only on a single shard.
-/

namespace GovernedConfig

inductive PidProtocol where
  | unionPid
  | manyToMany
  | unionPidMultikey
  deriving DecidableEq

namespace PidProtocol

def name : PidProtocol → String
  | unionPid => "UNION_PID"
  | manyToMany => "PS3I_M_TO_M"
  | unionPidMultikey => "UNION_PID_MULTIKEY"

def all : List PidProtocol := [unionPid, manyToMany, unionPidMultikey]

def ofName? (s : String) : Option PidProtocol := all.find? fun p => p.name == s

theorem ofName?_name (p : PidProtocol) : ofName? p.name = some p := by cases p <;> rfl

def default : PidProtocol := unionPid

def multikeyColumns : Nat := 6

/-- How many identifier columns the protocol of that name takes; an unknown one takes one. -/
def maxColumns (protocol : Option PidProtocol) : Nat :=
  if protocol = some unionPidMultikey then multikeyColumns else 1

def forShards (shards : Value) (multikeyEnabled : Bool) : PidProtocol :=
  if shards.same (.number 1) && multikeyEnabled then unionPidMultikey else default

/-- Whether row numbers are used; a wish that declines them is the answer as it stands. -/
def usesRowNumbers (wanted : Value) (protocol : Option PidProtocol) : Value :=
  if wanted.truthy then .bool (protocol ≠ some unionPidMultikey) else wanted

end PidProtocol

end GovernedConfig
