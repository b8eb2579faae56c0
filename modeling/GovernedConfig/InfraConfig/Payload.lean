import GovernedConfig.InfraConfig.Basic
import GovernedConfig.Json.Reader
import GovernedConfig.Schema.Check

/-! # Infra config payloads

Stored infra configs are checked against a schema whose bounds are those of the rules, then built
anew; the rules check the rest.
-/

namespace GovernedConfig.InfraConfig

def epochSchema : Schema := .number [.integer, .nonnegative]

def countSchema : Schema := .number [.integer, .positive]

def statusSchema : Schema := .oneOf statuses

def statusUpdateSchema : Schema := .fields [("status", statusSchema), ("statusUpdateTs", epochSchema)]

def stageInstanceSchema : Schema :=
  .fields
    [("kind", .oneOf ["PID", "MPC", "POST_PROCESSING", "STAGE_STATE"]), ("instanceId", .text 0),
      ("status", .text 0)]

def pceConfigSchema : Schema :=
  .fields
    [("subnets", .listOf (.text 0)), ("cluster", .text 0), ("region", .text 0),
      ("oneDockerTaskDefinition", .text 0)]

def schema : Schema :=
  .fields
    [("instanceId", .text 1),
      ("role", .oneOf ["PUBLISHER", "PARTNER"]),
      ("status", statusSchema),
      ("statusUpdateTs", epochSchema),
      ("instances", .listOf stageInstanceSchema),
      ("gameType", .oneOf ["LIFT", "ATTRIBUTION"]),
      ("numPidContainers", countSchema),
      ("numMpcContainers", countSchema),
      ("numFilesPerMpcContainer", countSchema),
      ("statusUpdates", .listOf statusUpdateSchema),
      ("tier", .nullable (.text 0)),
      ("pcsFeatures", .listOf (.text 0)),
      ("pceConfig", .nullable pceConfigSchema),
      ("stageFlowClsName", .text 0),
      ("retryCounter", epochSchema),
      ("creationTs", epochSchema),
      ("endTs", epochSchema),
      ("mpcComputeConcurrency", countSchema)]

/-- Checks a payload; what is wrong with it is logged and thrown. -/
def parseFields (payload : Value) : Act Ambient Value := do
  match schema.check payload with
  | .ok v => pure v
  | .error issues =>
    let texts := issues.map (·.text "(root)")
    Journal.warn "infra_config_parse_failed" "InfraConfig payload failed validation"
      [("issues", .list (texts.map .text))]
    Act.fail (.infraConfigPayload texts)

def restore (payload : Value) : Act Ambient Entity := do create (← parseFields payload)

def deserialize (s : String) : Act Ambient Entity :=
  match Json.read? s with
  | some payload => restore payload
  | none => Act.fail .malformedText

end GovernedConfig.InfraConfig
