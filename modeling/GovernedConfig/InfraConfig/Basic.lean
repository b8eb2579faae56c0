import GovernedConfig.Entity.Basic
import GovernedConfig.InfraConfig.Rules

/-! # Infra configs

The eighteen fields of one private computation instance, their order, mutability, defaults and hooks,
and the operations on a ready infra config.
-/

namespace GovernedConfig.InfraConfig

def defaultStageFlow : String := "PrivateComputationStageFlow"

def registry : Registry where
  entityName := "InfraConfig"
  identityField := some "instanceId"
  isSealed := true
  fields :=
    [⟨"instanceId", .immutableAfterInit, none, [instanceIdHook]⟩,
      ⟨"role", .mutable, none, []⟩,
      ⟨"status", .mutable, none, [postStatusHook]⟩,
      ⟨"statusUpdateTs", .derived, some .seconds, [minimumHook 6 "statusUpdateTs" 0]⟩,
      ⟨"instances", .mutable, some (.copyOf (.list [])), []⟩,
      ⟨"gameType", .immutableAfterInit, none, []⟩,
      ⟨"numPidContainers", .mutable, none, [minimumHook 7 "numPidContainers" 1, containerCountHook]⟩,
      ⟨"numMpcContainers", .mutable, none, [minimumHook 8 "numMpcContainers" 1, containerCountHook]⟩,
      ⟨"numFilesPerMpcContainer", .mutable, none, [minimumHook 9 "numFilesPerMpcContainer" 1]⟩,
      ⟨"statusUpdates", .derived, some (.copyOf (.list [])), [historyOrderHook, seedHistoryHook]⟩,
      ⟨"tier", .immutableAfterInit, some (.copyOf .null), []⟩,
      ⟨"pcsFeatures", .mutable, some (.copyOf (.list [])), [featuresHook]⟩,
      ⟨"pceConfig", .mutable, some (.copyOf .null), []⟩,
      ⟨"stageFlowClsName", .mutable, some (.value (.text defaultStageFlow)), []⟩,
      ⟨"retryCounter", .mutable, some (.value (.number 0)), [minimumHook 10 "retryCounter" 0]⟩,
      ⟨"creationTs", .immutableAfterInit, some .seconds, [minimumHook 11 "creationTs" 0]⟩,
      ⟨"endTs", .mutable, some (.value (.number 0)), [minimumHook 12 "endTs" 0]⟩,
      ⟨"mpcComputeConcurrency", .mutable, some (.value (.number 1)), [minimumHook 13 "mpcComputeConcurrency" 1]⟩]

def create (init : Value) : Act Ambient Entity := Entity.create registry init

def readFields (values : Values) : List String → Except Fault (Record Value)
  | [] => .ok []
  | field :: fields => do
    let v ← Entity.read registry values field
    let rest ← readFields values fields
    pure ((field, v) :: rest)

def toRecord (values : Values) : Except Fault (Record Value) := readFields values registry.fieldNames

def serialize (values : Values) : Except Fault String := do
  let r ← toRecord values
  match Json.print? (.record r) with
  | some s => pure s
  | none => throw .badType

def instanceId (values : Values) : Except Fault Value := Entity.read registry values "instanceId"

def updateStatus (depth : Nat) (status : Value) : Act (Scene Values) Unit := do
  let _ ← Entity.set registry depth "status" status

def addStageInstance (depth : Nat) (stage : Value) : Act (Scene Values) Unit := do
  let instances ← Act.suitable (← Entity.get registry "instances").walk?
  let _ ← Entity.set registry depth "instances" (.list (instances ++ [stage]))

end GovernedConfig.InfraConfig
