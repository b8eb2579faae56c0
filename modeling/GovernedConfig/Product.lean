import GovernedConfig.Fault
import GovernedConfig.Pid
import GovernedConfig.Schema.Check

/-! # Product configs

Attribution and lift runs share a common part. Parsing a product config fills in its defaults and
drops what the schema does not name.
-/

namespace GovernedConfig.Product

def visibility : List (String × Nat) := [("PUBLIC", 0), ("PUBLISHER", 1), ("PARTNER", 2)]

def attributionRules : List String :=
  ["last_click_1d", "last_click_7d", "last_click_28d", "last_touch_1d", "last_touch_7d", "last_touch_28d",
    "last_click_2_7d", "last_touch_2_7d", "last_click_1d_targetid"]

def integerSchema : Schema := .number [.integer]

def countSchema : Schema := .number [.integer, .nonnegative]

def positiveSchema : Schema := .number [.integer, .positive]

def breakdownSchema : Schema := .fields [("cellId", integerSchema), ("objectiveId", integerSchema)]

def postProcessingSchema : Schema :=
  .fields
    [("initialInputDataCount", .withDefault (.number 0) countSchema),
      ("dedupedInputDataCount", .withDefault (.number 0) countSchema)]

def commonSchema : Schema :=
  .fields
    [("inputPath", .text 1),
      ("outputDir", .text 1),
      ("hmacKey", .optional (.text 0)),
      ("paddingSize", .optional positiveSchema),
      ("resultVisibility", .withDefault (.number 0) (.oneOfNumbers [0, 1, 2])),
      ("pidUseRowNumbers", .withDefault (.bool true) .flag),
      ("multikeyEnabled", .withDefault (.bool true) .flag),
      ("pidProtocol", .withDefault (.text PidProtocol.default.name) (.oneOf (PidProtocol.all.map PidProtocol.name))),
      ("pidMaxColumnCount", .withDefault (.number 1) positiveSchema),
      ("pidConfigs", .optional .anyRecord),
      ("postProcessingData", .optional postProcessingSchema)]

def attributionSchema : Schema :=
  .fields
    [("kind", .exactly "attribution"),
      ("common", commonSchema),
      ("aggregationType", .exactly "measurement"),
      ("attributionRule", .withDefault (.text "last_click_1d") (.oneOf attributionRules))]

def liftSchema : Schema :=
  .fields
    [("kind", .exactly "lift"),
      ("common", commonSchema),
      ("kAnonymityThreshold", .withDefault (.number 0) countSchema),
      ("breakdownKey", .optional breakdownSchema)]

def schema : Schema := .tagged "kind" [("attribution", attributionSchema), ("lift", liftSchema)]

def parse (payload : Value) : Except Fault Value :=
  match schema.check payload with
  | .ok v => .ok v
  | .error issues => .error (.productPayload (issues.map (·.text "(root)")))

structure PidSettings where
  protocol : PidProtocol
  maxColumns : Nat
  useRowNumbers : Value

/-- The matching of a run over so many shards, for the common part of a parsed product config. -/
def resolvePid (common : Record Value) (shards : Value) : PidSettings :=
  let protocol := PidProtocol.forShards shards (Value.lookUp common "multikeyEnabled").truthy
  { protocol
    maxColumns := PidProtocol.maxColumns (some protocol)
    useRowNumbers :=
      PidProtocol.usesRowNumbers (Value.lookUp common "pidUseRowNumbers") (some protocol) }

end GovernedConfig.Product
