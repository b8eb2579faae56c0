import GovernedConfig.Value.Basic

/-! # The values of an entity

An entity's values are what was written under each name, above a base that answers the names under
which nothing was written. The name `__proto__` stands for the base: writing it puts another base
in place, and a base of `null` answers nothing.
-/

namespace GovernedConfig

structure Values where
  own : Record Value := []
  base : Value := .record []
  deriving DecidableEq, Inhabited

namespace Values

variable (vs : Values)

def inherited (field : String) : Value :=
  if field = "__proto__" then
    match vs.base with
    | .null => .undefined
    | .record r => (r.lookup field).getD vs.base
    | _ => vs.base
  else (vs.base.member? field).getD .undefined

def read (field : String) : Value := (vs.own.lookup field).getD (vs.inherited field)

/-- Whether the name `__proto__` is a name like any other: it is once something was written under it,
and above a base that does not answer it as the base. -/
def isPlainName (field : String) : Bool :=
  field != "__proto__" || Record.holds vs.own field ||
    match vs.base with
    | .null => true
    | .record r => Record.holds r field
    | _ => false

/-- The values after a write; only `null`, lists and records can be a base. -/
def write (field : String) (v : Value) : Values :=
  if vs.isPlainName field then { vs with own := Record.insert vs.own field v }
  else match v with
    | .null => { vs with base := v }
    | .list _ => { vs with base := v }
    | .record _ => { vs with base := v }
    | _ => vs

/-- A copy holds what was written, above a base of its own. -/
def copied : Values := { own := vs.own }

theorem isPlainName_of_ne {field : String} (h : field ≠ "__proto__") : vs.isPlainName field = true := by
  simp [isPlainName, h]

theorem read_write_self {field : String} (h : field ≠ "__proto__") (v : Value) :
    (vs.write field v).read field = v := by
  unfold write
  rw [if_pos (vs.isPlainName_of_ne h), read, Record.lookup_insert_self, Option.getD_some]

theorem read_write_of_ne {field other : String} (h : field ≠ "__proto__") (ho : other ≠ field) (v : Value) :
    (vs.write field v).read other = vs.read other := by
  unfold write
  rw [if_pos (vs.isPlainName_of_ne h), read, Record.lookup_insert_of_ne ho]
  rfl

end Values

end GovernedConfig
