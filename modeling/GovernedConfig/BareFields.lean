import GovernedConfig.Entity.Basic

/-! # Bare fields

A dispatch can also work on bare fields, which no registry guards: they are read and assigned
unchecked. Like the values of an entity they stand on a base, which answers the names under which
nothing was assigned, and which the name `__proto__` stands for. A read hands out the very thing that
a field holds. So lists and records have their places on the shelf, and a list grows for all its
holders.
-/

namespace GovernedConfig

structure BareFields where
  own : Record Slot := []
  base : Slot := .own (.record [])

namespace BareFields

def onShelf {α : Type} (act : Shelf → α × Shelf) : Act Ambient α :=
  modifyGet fun m =>
    let (a, shelf) := act m.shelf
    (a, { m with shelf })

/-- Fields that hold the entries of a record, above a base that holds nothing. -/
def ofRecord (r : Record Value) : Act Ambient BareFields := do
  pure { own := ← onShelf (Shelf.holdEntries r) }

def toRecord (fields : BareFields) (s : Shelf) : Record Value := fields.own.map fun (name, slot) => (name, s.value slot)

variable (fields : BareFields) (s : Shelf)

/-- What a record that is the base holds under `__proto__` itself. -/
def baseEntry? : Option Slot :=
  match s.cell? fields.base with
  | some (.record slots) => slots.lookup "__proto__"
  | _ => none

/-- What the base answers to a name, if it may be asked. -/
def inherited? (field : String) : Option Slot :=
  if fields.base = .own .null then some (.own .undefined)
  else if field = "__proto__" then some ((fields.baseEntry? s).getD fields.base)
  else s.member? fields.base field

def read? (field : String) : Option Slot :=
  match fields.own.lookup field with
  | some slot => some slot
  | none => fields.inherited? s field

/-- Whether the name `__proto__` is a name like any other: it is once something was assigned to it, and
above a base that does not answer it as the base. -/
def isPlainName (field : String) : Bool :=
  field != "__proto__" || fields.own.holds field || fields.base = .own .null || (fields.baseEntry? s).isSome

/-- Whether the base lets nothing be assigned to a name. -/
def guards (field : String) : Bool :=
  match fields.base with
  | .own (.callable c) => c.guards field && !fields.own.holds field
  | _ => false

/-- Only `null`, lists, records and callables can be a base. -/
def canBeBase : Slot → Bool
  | .shared _ => true
  | .own .null => true
  | .own (.list _) => true
  | .own (.record _) => true
  | .own (.callable _) => true
  | .own _ => false

def write? (field : String) (slot : Slot) : Option BareFields :=
  if !fields.isPlainName s field then some (if canBeBase slot then { fields with base := slot } else fields)
  else if fields.guards field then none
  else some { fields with own := fields.own.insert field slot }

theorem write?_eq_some_iff {field : String} (h : field ≠ "__proto__") {slot : Slot} {written : BareFields} :
    fields.write? s field slot = some written ↔
      fields.guards field = false ∧ { fields with own := fields.own.insert field slot } = written := by
  have hp : fields.isPlainName s field = true := by simp [isPlainName, h]
  unfold write?
  rw [hp, Bool.not_true, if_neg Bool.false_ne_true]
  cases fields.guards field <;> simp

theorem read?_write?_self {field : String} (h : field ≠ "__proto__") {slot : Slot} {written : BareFields}
    (hw : fields.write? s field slot = some written) : written.read? s field = some slot := by
  obtain ⟨_, rfl⟩ := (write?_eq_some_iff fields s h).mp hw
  simp only [read?, Record.lookup_insert_self]

theorem read?_write?_of_ne {field other : String} (h : field ≠ "__proto__") (ho : other ≠ field) {slot : Slot}
    {written : BareFields} (hw : fields.write? s field slot = some written) :
    written.read? s other = fields.read? s other := by
  obtain ⟨_, rfl⟩ := (write?_eq_some_iff fields s h).mp hw
  simp only [read?, Record.lookup_insert_of_ne ho]
  rfl

def shelf : Act (Scene BareFields) Shelf := do pure (← MonadState.get).ambient.shelf

def slot (field : String) : Act (Scene BareFields) Slot := do
  Act.suitable ((← Scene.values).read? (← shelf) field)

def get (field : String) : Act (Scene BareFields) Value := do
  let slot ← slot field
  pure ((← shelf).value slot)

def evaluate : Source → Act (Scene BareFields) Slot
  | .value v => Scene.around (onShelf (Shelf.hold v))
  | .constant spot v => Scene.around (onShelf (Shelf.holdConstant spot v))
  | .held field => slot field
  | .extended field last => do
    let held ← slot field
    let slots ← Act.suitable ((← shelf).slots? held)
    let added ← evaluate last
    Scene.around (onShelf (Shelf.put (.list (slots ++ [added]))))

def assign (field : String) (source : Source) : Act (Scene BareFields) Unit := do
  let slot ← evaluate source
  Scene.putValues (← Act.suitable ((← Scene.values).write? (← shelf) field slot))

def push (field : String) (source : Source) : Act (Scene BareFields) Unit := do
  let slot ← slot field
  let added ← evaluate source
  let shelf ← Act.suitable ((← shelf).push? slot added)
  Scene.around (modify fun m => { m with shelf })

def set (field : String) (v : Value) : Act (Scene BareFields) Report := do
  match (← MonadState.get).current with
  | none => Act.fail .badType
  | some e => Scene.visit e (Entity.set e.registry Entity.nesting field v)

def scope (label : String) : Scope BareFields where
  label _ := label
  get
  assign
  push
  set

end BareFields

end GovernedConfig
