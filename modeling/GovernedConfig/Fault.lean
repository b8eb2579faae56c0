import GovernedConfig.Phase
import GovernedConfig.Value.Description

/-! # Faults

What can go wrong, by cause, and the message of each cause. What an operation throws is a fault or,
from a hook, any value at all.
-/

namespace GovernedConfig

inductive StoreOperation where
  | save
  | load
  | delete
  deriving DecidableEq

def StoreOperation.name : StoreOperation → String
  | .save => "save"
  | .load => "load"
  | .delete => "delete"

inductive Fault where
  | immutableField (field : String) (current attempted : Value)
  | derivedField (field : String)
  | invariant (hook reason : String) (fields : Record Value)
  | unknownField (entity field : String)
  | missingField (entity field : String)
  | construction (entity : String) (cause : Fault)
  | hookRegistration (scope reason : String)
  | wrongPhase (expected actual : Phase)
  | illegalTransition (origin target : Phase)
  | asyncHook (hook : String)
  | store (operation : StoreOperation) (id : Value) (reason : String)
  | infraConfigPayload (issues : List String)
  | productPayload (issues : List String)
  /-- The payload is no JSON text. -/
  | malformedText
  | environment (issues : List String)
  | plain (message : String)
  /-- A value was used as what it is not. -/
  | badType
  /-- A clock reading has no date, or calls are nested too deep. -/
  | outOfRange
  /-- A callable cannot be copied. -/
  | uncopyable
  deriving DecidableEq, Inhabited

/-! The texts of messages, around the names and values that they mention. -/

namespace Wording

def immutableField (field current attempted : String) : String :=
  "Field \"" ++ field ++ "\" is immutable once set (current: " ++ current ++ ", attempted: " ++ attempted ++ ")"

def derivedField (field : String) : String :=
  "Field \"" ++ field ++ "\" is maintained by hooks and cannot be written directly"

def unknownField (entity field : String) : String := entity ++ " has no field \"" ++ field ++ "\""

def missingField (entity field : String) : String := entity ++ " requires a value for \"" ++ field ++ "\""

def construction (entity reason : String) : String := "Failed to construct " ++ entity ++ ": " ++ reason

def hookRegistration (scope reason : String) : String := scope ++ ": " ++ reason

def wrongPhase (expected actual : String) : String :=
  "Expected lifecycle state " ++ expected ++ ", but was " ++ actual

def illegalTransition (origin target : String) : String :=
  "Illegal lifecycle transition: " ++ origin ++ " → " ++ target

def asyncHook (hook : String) : String :=
  "Hook \"" ++ hook ++ "\" returned a promise; hook actions must complete synchronously"

def store (operation id reason : String) : String :=
  "InfraConfig store " ++ operation ++ " failed for " ++ id ++ ": " ++ reason

def infraConfigPayload (issues : List String) : String :=
  "Invalid InfraConfig payload: " ++ "; ".intercalate issues

def productPayload (issues : List String) : String := "Invalid product config: " ++ "; ".intercalate issues

def environment (issues : List String) : String :=
  "Invalid environment configuration: " ++ "; ".intercalate issues

end Wording

namespace Fault

def message : Fault → String
  | immutableField field current attempted =>
    Wording.immutableField field (current.describe?.getD "") (attempted.describe?.getD "")
  | derivedField field => Wording.derivedField field
  | invariant _ reason _ => reason
  | unknownField entity field => Wording.unknownField entity field
  | missingField entity field => Wording.missingField entity field
  | construction entity cause => Wording.construction entity cause.message
  | hookRegistration scope reason => Wording.hookRegistration scope reason
  | wrongPhase expected actual => Wording.wrongPhase expected.name actual.name
  | illegalTransition origin target => Wording.illegalTransition origin.name target.name
  | asyncHook hook => Wording.asyncHook hook
  | store operation id reason => Wording.store operation.name (id.toText?.getD "") reason
  | infraConfigPayload issues => Wording.infraConfigPayload issues
  | productPayload issues => Wording.productPayload issues
  | malformedText => Wording.infraConfigPayload ["Malformed JSON"]
  | environment issues => Wording.environment issues
  | plain message => message
  | badType => "Unsuitable value"
  | outOfRange => "Out of range"
  | uncopyable => "Value cannot be copied"

/-- The refusal of a write to a field that keeps its value; it describes both values, and fails
where one cannot be described. -/
def refusedWrite (field : String) (current attempted : Value) : Fault :=
  if current.describe?.isSome && attempted.describe?.isSome then immutableField field current attempted
  else badType

/-- A failed store operation, whose message names the instance; it fails where the name cannot be
read as a text. -/
def failedStore (operation : StoreOperation) (id : Value) (reason : String) : Fault :=
  if id.toText?.isSome then store operation id reason else badType

end Fault

inductive Thrown where
  | fault (cause : Fault)
  | value (v : Value)
  deriving DecidableEq

namespace Thrown

/-- The thrown fault; a thrown value becomes a plain fault with its text, if it has one. -/
def toFault : Thrown → Except Fault Fault
  | fault cause => .ok cause
  | value v => match v.toText? with
    | some s => .ok (.plain s)
    | none => .error .badType

/-- The message under which something thrown is logged. -/
def summary : Thrown → String
  | fault cause => cause.message
  | value _ => "Unknown error"

end Thrown

instance : Inhabited Thrown := ⟨.fault default⟩

end GovernedConfig
