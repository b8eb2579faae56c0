import GovernedConfig.Fault
import GovernedConfig.Schema.Check

/-! # Settings

The settings of the service, read from four environment variables.
-/

namespace GovernedConfig

/-- How much is logged; `silent` is a threshold only. -/
inductive Level where
  | debug
  | info
  | warn
  | error
  | silent
  deriving DecidableEq

namespace Level

def name : Level → String
  | debug => "debug"
  | info => "info"
  | warn => "warn"
  | error => "error"
  | silent => "silent"

def rank : Level → Nat
  | debug => 10
  | info => 20
  | warn => 30
  | error => 40
  | silent => 100

def all : List Level := [debug, info, warn, error, silent]

def ofName? (s : String) : Option Level := all.find? fun l => l.name == s

theorem ofName?_name (l : Level) : ofName? l.name = some l := by cases l <;> rfl

end Level

structure Settings where
  threshold : Level
  redisUrl : Option String
  ttlSeconds : Binary64
  parallelism : Binary64
  deriving DecidableEq

namespace Settings

def schema : Schema :=
  .fields
    [("LOG_LEVEL", .withDefault (.text "info") (.oneOf (Level.all.map Level.name))),
      ("REDIS_URL", .optional (.text 0)),
      ("CONFIG_STORE_TTL_SECONDS", .withDefault (.number 0) (.numeral [.integer, .nonnegative])),
      ("TERRAFORM_PARALLELISM", .withDefault (.number 10) (.numeral [.integer, .positive]))]

/-- The settings that a record of the schema says; an empty URL is no URL. -/
def ofRecord (r : Record Value) : Settings where
  threshold := match r.lookup "LOG_LEVEL" with
    | some (.text s) => (Level.ofName? s).getD .info
    | _ => .info
  redisUrl := match r.lookup "REDIS_URL" with
    | some (.text s) => if s = "" then none else some s
    | _ => none
  ttlSeconds := match r.lookup "CONFIG_STORE_TTL_SECONDS" with
    | some (.number x) => x
    | _ => 0
  parallelism := match r.lookup "TERRAFORM_PARALLELISM" with
    | some (.number x) => x
    | _ => 10

/-- What an environment variable keeps of a text: whole characters only, and nothing from a null character on. -/
def kept (s : String) : String :=
  String.ofList (Text.replaceLone (s.toList.takeWhile fun c => c.toNat != 0))

/-- What issues with the environment amount to; a value that cannot be read outweighs all others. -/
def faultOf (issues : List Issue) : Fault :=
  if issues.any (·.complaint = .unreadable) then .badType else .environment (issues.map (·.text ""))

def parse (environment : Value) : Except Fault Settings :=
  match schema.check environment with
  | .ok (.record r) => .ok (ofRecord r)
  | .ok _ => .ok (ofRecord [])
  | .error issues => .error (faultOf issues)

end Settings

end GovernedConfig
