import GovernedConfig.Lifecycle
import GovernedConfig.Mutability

/-! # Governed entities

An entity's fields are governed by a registry. Construction gives a ready entity or fails; an update
that a hook rejects is taken back whole, the write and every write that hooks made during it.
-/

namespace GovernedConfig

namespace Entity

variable (r : Registry)

/-- The text of the identity field, if there is one. -/
def label (values : Values) : String :=
  match r.identityField with
  | none => "unknown"
  | some field =>
    if field = "" then "unknown"
    else match values.read field with
      | .text s => s
      | _ => "unknown"

def read (values : Values) (field : String) : Except Fault Value :=
  if !r.isDeclared field then .error (r.unknown field)
  else
    let v := values.read field
    if v = .undefined then .error (.missingField r.entityName field)
    else if !v.isCopyable then .error .uncopyable
    else .ok v

def get (field : String) : Act (Scene Values) Value := do Act.ofExcept (read r (← Scene.values) field)

def store (field : String) (v : Value) : Act (Scene Values) Unit := do
  if !v.isCopyable then Act.fail .uncopyable
  else Scene.putValues ((← Scene.values).write field v)

/-- A checked write, without any hook. -/
def write (field : String) (v : Value) (origin : Origin) : Act (Scene Values) Unit := do
  let values ← Scene.values
  Scene.around (r.assertWritable (values.read field) field v origin)
  store field v

/-- The governed write, its hooks running in the given scope. -/
def update (scope : Scope Values) (field : String) (v : Value) : Act (Scene Values) Report := do
  Lifecycle.requireReady
  let values ← Scene.values
  Scene.around (r.assertWritable (values.read field) field v .caller)
  store field v
  try
    Lifecycle.dispatchUpdate r scope field
  catch thrown =>
    Scene.putValues values.copied
    Scene.around (Journal.warn "entity_update_rolled_back" "Update rejected by hook; previous state restored"
      [("entity", .text r.entityName), ("instance", .text (label r values.copied)), ("field", .text field)])
    throw thrown

/-- The value that a program assigns; what is read is copied. -/
def evaluate : Source → Act (Scene Values) Value
  | .value v => pure v
  | .constant spot v => do pure ((← MonadState.get).ambient.shelf.constant spot v)
  | .held field => get r field
  | .extended field last => do
    let items ← Act.suitable (← get r field).walk?
    pure (.list (items ++ [← evaluate last]))

/-- Pushes onto a copy, which changes nothing. -/
def pushOntoCopy (field : String) (source : Source) : Act (Scene Values) Unit := do
  let copied ← get r field
  let _ ← Act.suitable (copied.push? (← evaluate r source))

/-- The scope of an entity's hooks, which may write an entity anew to the given depth: the current one,
or their own once it is ready. -/
def scope : (depth : Nat) → Registry → Scope Values
  | 0, r =>
    { label := label r
      get := get r
      assign := fun field source => do write r field (← evaluate r source) .hook
      push := pushOntoCopy r
      set := fun _ _ => Act.fail .outOfRange }
  | depth + 1, r =>
    { label := label r
      get := get r
      assign := fun field source => do write r field (← evaluate r source) .hook
      push := pushOntoCopy r
      set := fun field v => do
        let scene ← MonadState.get
        match scene.current with
        | some e => Scene.visit e (update e.registry (scope depth e.registry) field v)
        | none =>
          if scene.entity.phase.acceptsUpdates then update r (scope depth r) field v
          else Act.fail .badType }

def nesting : Nat := 1000

def set (depth : Nat) (field : String) (v : Value) : Act (Scene Values) Report :=
  update r (scope depth r) field v

/-- A write whose failure is an answer. -/
def safeSet (depth : Nat) (field : String) (v : Value) : Act (Scene Values) (Except Fault Report) := do
  try
    pure (.ok (← set r depth field v))
  catch thrown =>
    pure (.error (← Act.ofExcept thrown.toFault))

def isWritable (field : String) : Act (Scene Values) (Option Bool) := do
  Act.ofExcept (r.canWrite ((← Scene.values).read field) field .caller)

def checkNames : List String → Except Fault Unit
  | [] => .ok ()
  | name :: names => if r.isDeclared name then checkNames names else .error (r.unknown name)

/-- Writes the fields in declaration order, each with what is supplied for it or with its default. -/
def fill (init : Value) : List FieldSpec → Act (Scene Values) Unit
  | [] => pure ()
  | spec :: specs => do
    let supplied ← Act.suitable (init.member? spec.name)
    if supplied ≠ .undefined then write r spec.name supplied .construction
    else match ← Scene.around (r.resolveDefault spec.name) with
      | some v => write r spec.name v .construction
      | none => Act.fail (.missingField r.entityName spec.name)
    fill init specs

def populate (init : Value) : Act (Scene Values) Unit := do
  let names ← Act.suitable init.ownNames?
  Act.ofExcept (checkNames r names)
  fill r init r.fields

def journalNames (values : Values) : Record Value :=
  [("entity", .text r.entityName), ("instance", .text (label r values))]

/-- Fills the fields, runs the construction hooks and gets ready; a failure is wrapped. -/
def construct (depth : Nat) (init : Value) : Act (Scene Values) Unit := do
  try
    populate r init
    let _ ← Lifecycle.completeConstruction r (scope depth r)
  catch thrown =>
    let cause ← Act.ofExcept thrown.toFault
    let values ← Scene.values
    Scene.around (Journal.error "entity_construction_failed" "Entity construction rejected"
      (journalNames r values ++ [("error", .text cause.message)]))
    Act.fail (.construction r.entityName cause)
  let values ← Scene.values
  Scene.around (Journal.info "entity_constructed" "Entity ready" (journalNames r values))

/-- A new entity of a registry, beside the one that is current meanwhile. -/
def createBeside (init : Value) : Act (Ambient × Option Entity) Entity := fun (m, current) =>
  match construct r nesting init { ambient := m, entity := { values := {} }, current } with
  | .ok _ s => .ok ⟨r.sealed, s.entity⟩ (s.ambient, s.current)
  | .error thrown s => .error thrown (s.ambient, s.current)

def create (init : Value) : Act Ambient Entity :=
  Act.within (fun m => (m, none)) (fun s _ => s.1) (createBeside r init)

end Entity

end GovernedConfig
