import GovernedConfig.Fault

/-! # Notices

A notice is what is told of a fault: its kind, its message and the values that it is about. It is
made of a fault, or drawn up from any values at all, which then stand in it as they are.
-/

namespace GovernedConfig

inductive FaultKind where
  | immutableField
  | derivedField
  | invariant
  | unknownField
  | missingField
  | construction
  | hookRegistration
  | wrongPhase
  | illegalTransition
  | asyncHook
  | store
  | infraConfigPayload
  | productPayload
  | malformedText
  | plain
  | badType
  | outOfRange
  | uncopyable
  deriving DecidableEq

namespace FaultKind

/-- The faults that a governed write answers with: a refusal by a check or by an invariant. -/
def isFieldWrite : FaultKind → Bool
  | immutableField => true
  | derivedField => true
  | invariant => true
  | unknownField => true
  | _ => false

/-- The names of the values that a fault of this kind is about. -/
def subjects : FaultKind → List String
  | immutableField => ["field", "currentValue", "attemptedValue"]
  | derivedField => ["field"]
  | invariant => ["hookId", "fields"]
  | unknownField => ["entityName", "field"]
  | missingField => ["entityName", "field"]
  | construction => ["entityName"]
  | hookRegistration => ["scope"]
  | wrongPhase => ["expectedState", "actualState"]
  | illegalTransition => ["from", "to"]
  | asyncHook => ["hookId"]
  | store => ["operation", "instanceId"]
  | infraConfigPayload => ["issues"]
  | productPayload => ["issues"]
  | _ => []

end FaultKind

inductive Notice where
  /-- The message is missing where a fault has no text of its own. -/
  | mk (kind : FaultKind) (message : Option String) (subjects : Record Value) (cause : Option Notice)

namespace Notice

def kind : Notice → FaultKind
  | mk kind _ _ _ => kind

def message? : Notice → Option String
  | mk _ message _ _ => message

/-- A notice without a cause that is about the given values. -/
def about (kind : FaultKind) (message : String) (subjects : List Value) : Notice :=
  mk kind (some message) (kind.subjects.zip subjects) none

/-- A notice whose kind says everything. -/
def bare (kind : FaultKind) : Notice := mk kind none [] none

/-- The notice of a failed construction; it has no message if its cause has none. -/
def wrapping (entity : Value) (text : String) (cause : Notice) : Notice :=
  mk .construction (cause.message?.map (Wording.construction text))
    (FaultKind.construction.subjects.zip [entity]) (some cause)

/-- The text of a reason; a missing one is empty. -/
def reason? (v : Value) : Option String := if v = .undefined then some "" else v.toText?

/-- The texts of listed issues; nothing but a list lists any. -/
def issues? : Value → Option (List String)
  | .list items => Value.memberTexts? items
  | _ => none

/-- Draws up a notice from any values; none if one of them does not have the text that the message
needs, or if a cause is needed and missing. -/
def ofValues? (kind : FaultKind) (values : List Value) (cause : Option Notice) : Option Notice := do
  let value (i : Nat) : Value := values[i]?.getD .undefined
  let text (i : Nat) : Option String := (value i).toText?
  let about (message : String) (subjects : List Value) : Notice := .about kind message subjects
  match kind with
  | .immutableField =>
    let message := Wording.immutableField (← text 0) (← (value 1).describe?) (← (value 2).describe?)
    pure (about message [value 0, value 1, value 2])
  | .derivedField => pure (about (Wording.derivedField (← text 0)) [value 0])
  | .invariant =>
    let fields := if value 2 = .undefined then .record [] else value 2
    pure (about (← reason? (value 1)) [value 0, fields])
  | .unknownField => pure (about (Wording.unknownField (← text 0) (← text 1)) [value 0, value 1])
  | .missingField => pure (about (Wording.missingField (← text 0) (← text 1)) [value 0, value 1])
  | .construction => pure (wrapping (value 0) (← text 0) (← cause))
  | .hookRegistration => pure (about (Wording.hookRegistration (← text 0) (← text 1)) [value 0])
  | .wrongPhase => pure (about (Wording.wrongPhase (← text 0) (← text 1)) [value 0, value 1])
  | .illegalTransition => pure (about (Wording.illegalTransition (← text 0) (← text 1)) [value 0, value 1])
  | .asyncHook => pure (about (Wording.asyncHook (← text 0)) [value 0])
  | .store => pure (about (Wording.store (← text 0) (← text 1) (← text 2)) [value 0, value 1])
  | .infraConfigPayload => pure (about (Wording.infraConfigPayload (← issues? (value 0))) [value 0])
  | .productPayload => pure (about (Wording.productPayload (← issues? (value 0))) [value 0])
  | .plain => pure (about (← reason? (value 0)) [])
  | kind => pure (bare kind)

end Notice

namespace Fault

def kind : Fault → FaultKind
  | immutableField .. => .immutableField
  | derivedField .. => .derivedField
  | invariant .. => .invariant
  | unknownField .. => .unknownField
  | missingField .. => .missingField
  | construction .. => .construction
  | hookRegistration .. => .hookRegistration
  | wrongPhase .. => .wrongPhase
  | illegalTransition .. => .illegalTransition
  | asyncHook .. => .asyncHook
  | store .. => .store
  | infraConfigPayload .. => .infraConfigPayload
  | productPayload .. => .productPayload
  | malformedText => .malformedText
  | environment .. => .plain
  | plain .. => .plain
  | badType => .badType
  | outOfRange => .outOfRange
  | uncopyable => .uncopyable

def isFieldWrite (f : Fault) : Bool := f.kind.isFieldWrite

def subjects : Fault → List Value
  | immutableField field current attempted => [.text field, current, attempted]
  | derivedField field => [.text field]
  | invariant hook _ fields => [.text hook, .record fields]
  | unknownField entity field => [.text entity, .text field]
  | missingField entity field => [.text entity, .text field]
  | construction entity _ => [.text entity]
  | hookRegistration scope _ => [.text scope]
  | wrongPhase expected actual => [.text expected.name, .text actual.name]
  | illegalTransition origin target => [.text origin.name, .text target.name]
  | asyncHook hook => [.text hook]
  | store operation id _ => [.text operation.name, id]
  | infraConfigPayload issues => [.list (issues.map .text)]
  | productPayload issues => [.list (issues.map .text)]
  | _ => []

def notice : Fault → Notice
  | construction entity cause => .wrapping (.text entity) entity cause.notice
  | malformedText => .bare .malformedText
  | badType => .bare .badType
  | outOfRange => .bare .outOfRange
  | uncopyable => .bare .uncopyable
  | f => .about f.kind f.message f.subjects

end Fault

end GovernedConfig
