import GovernedConfig.Ambient
import GovernedConfig.Hook.Basic

/-! # Field registries

A registry declares the fields of one kind of entity, in order: whether each may be written, what
it defaults to, and which hooks watch it. It is built by declarations, any of which may be refused,
and then sealed.
-/

namespace GovernedConfig

/-- `derived` fields belong to hooks: callers cannot write them once the entity is built. -/
inductive Mutability where
  | mutable
  | immutableAfterInit
  | derived
  /-- Anything else that a declaration says; a field with it takes no writes. -/
  | other (v : Value)
  deriving DecidableEq

namespace Mutability

def value : Mutability → Value
  | mutable => .text "MUTABLE"
  | immutableAfterInit => .text "IMMUTABLE_AFTER_INIT"
  | derived => .text "DERIVED"
  | other v => v

/-- What a declaration says; one that says nothing makes a field mutable. -/
def ofValue (v : Value) : Mutability :=
  if !v.isPresent then mutable
  else ([mutable, immutableAfterInit, derived].find? fun m => m.value = v).getD (other v)

theorem ofValue_text (m : Mutability) (h : ∀ v, m ≠ other v) : ofValue m.value = m := by
  cases m with
  | other v => exact absurd rfl (h v)
  | _ => rfl

end Mutability

inductive Default where
  | value (v : Value)
  /-- Made anew each time. -/
  | copyOf (v : Value)
  /-- The clock reading, in whole seconds. -/
  | seconds
  /-- Numbers from one up, a separate row for each key. -/
  | counter (key : Nat)

def Default.resolve : Default → Act Ambient Value
  | value v => pure v
  | copyOf v => pure v
  | seconds => do pure (.number (← get).seconds)
  | counter key => do pure (.number (.ofNat (← Ambient.draw key)))

structure FieldSpec where
  name : String
  mutability : Mutability
  default : Option Default
  hooks : List Hook

structure Registry where
  entityName : String
  /-- The field whose text labels an entity in the journal. -/
  identityField : Option String := none
  fields : List FieldSpec := []
  isSealed : Bool := false

namespace Registry

structure FieldOptions where
  mutability : Value := .undefined
  /-- A shared default; `undefined` is none. -/
  default : Value := .undefined
  factory : Option Default := none

variable (r : Registry)

def find? (field : String) : Option FieldSpec := r.fields.find? fun spec => spec.name == field

def isDeclared (field : String) : Bool := r.fields.any fun spec => spec.name == field

def fieldNames : List String := r.fields.map FieldSpec.name

def unknown (field : String) : Fault := .unknownField r.entityName field

def spec (field : String) : Except Fault FieldSpec :=
  match r.find? field with
  | some spec => .ok spec
  | none => .error (r.unknown field)

/-- The mutability of a field; an empty one counts as none. -/
def mutability (field : String) : Except Fault Mutability := do
  let spec ← r.spec field
  if spec.mutability.value.truthy then pure spec.mutability else throw (r.unknown field)

def hooksFor (field : String) (t : Trigger) : Except Fault (List Hook) :=
  (r.spec field).map fun spec => spec.hooks.filter (·.hasTrigger t)

def immutableFields : List String :=
  (r.fields.filter fun spec => spec.mutability == .immutableAfterInit).map FieldSpec.name

def sealed : Registry := { r with isSealed := true }

def checkOpen : Except Fault Unit :=
  if r.isSealed then
    .error (.hookRegistration r.entityName "registry is sealed; declare fields and hooks at load time")
  else .ok ()

def FieldOptions.resolved (options : FieldOptions) : Option Default :=
  options.factory <|> if options.default = .undefined then none else some (.value options.default)

/-- Refuses a declaration that comes too late, comes twice or contradicts itself. -/
def checkDeclaration (field : String) (options : FieldOptions) : Except Fault Unit := do
  r.checkOpen
  if r.isDeclared field then
    throw (.hookRegistration r.entityName ("field \"" ++ field ++ "\" is declared twice"))
  if options.default ≠ .undefined ∧ options.factory.isSome then
    throw (.hookRegistration r.entityName
      ("field \"" ++ field ++ "\" cannot have both default and defaultFactory"))

/-- A default that is declared for `__proto__` is a callable that stands below all other defaults. -/
def hasBase : Bool := ((r.find? "__proto__").bind FieldSpec.default).isSome

def addField (spec : FieldSpec) : Registry := { r with fields := r.fields ++ [spec] }

def addHook (field : String) (h : Hook) : Registry :=
  { r with fields := r.fields.map fun spec =>
      if spec.name == field then { spec with hooks := spec.hooks ++ [h] } else spec }

/-- Declares a field and then its default; a field whose default the base does not let through stays
declared without one. -/
def define (field : String) (options : FieldOptions) : Act Registry Unit := do
  let r ← get
  Act.ofExcept (r.checkDeclaration field options)
  let spec : FieldSpec := ⟨field, .ofValue options.mutability, none, []⟩
  set (r.addField spec)
  if options.resolved.isSome then
    if r.hasBase && Callable.anonymous.guards field then Act.fail .badType
    else set (r.addField { spec with default := options.resolved })

def clashes (bound : List Hook) (h : Hook) : Bool :=
  bound.any fun existing => existing.id == h.id && h.triggers.any existing.hasTrigger

def register (field : String) (h : Hook) : Act Registry Unit := do
  let r ← get
  Act.ofExcept r.checkOpen
  let spec ← Act.ofExcept (r.spec field)
  if clashes spec.hooks h then
    Act.fail (.hookRegistration r.entityName ("hook \"" ++ h.id ++ "\" is already registered on \"" ++ field ++
      "\" for " ++ ", ".intercalate (h.triggers.map Trigger.name)))
  else set (r.addHook field h)

def baseAnswer? (field : String) : Option Value :=
  (if r.hasBase then Value.callable .anonymous else .record []).member? field

/-- What stands in for a default that was not declared: whatever the base answers is called on nothing. -/
def undeclaredDefault (field : String) : Act Ambient (Option Value) :=
  match r.baseAnswer? field with
  | none => Act.fail .badType
  | some v =>
    if !v.truthy then pure none
    else if field = "isPrototypeOf" then pure (some (.bool false))
    else if field = "constructor" then
      pure (some (if r.hasBase then .callable ⟨"anonymous", 0⟩ else .record []))
    else if field = "toString" && !r.hasBase then pure (some (.text "[object Undefined]"))
    else Act.fail .badType

/-- The default of a field, if it has one; the reserved names answer even when nothing was declared
for them. -/
def resolveDefault (field : String) : Act Ambient (Option Value) :=
  match (r.find? field).bind FieldSpec.default with
  | some d => do pure (some (← d.resolve))
  | none => r.undeclaredDefault field

end Registry

end GovernedConfig
