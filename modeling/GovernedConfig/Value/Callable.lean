/-! # Callables

Every value answers some names that it does not hold itself, and most of what it answers to them is
callable. Nothing is ever called here: of a callable only its name and the number of its parameters
can be seen, and its text, which is made of its name. So the text and the JSON form of a record that
holds a callable under `toString`, `valueOf` or `toJSON`, to be called for them, are not described.
Such a record has no copy, and an entity whose field names are ordinary never holds one.
-/

namespace GovernedConfig

structure Callable where
  name : String
  arity : Nat
  deriving DecidableEq, Inhabited

inductive ValueKind where
  | bool
  | number
  | bigint
  | text
  | callable
  | list
  | record
  deriving DecidableEq

namespace Callable

def text (c : Callable) : String := "function " ++ c.name ++ "() \x7b [native code] \x7d"

def anonymous : Callable := ⟨"", 0⟩

def find? (table : List (String × Nat)) (name : String) : Option Callable :=
  (table.lookup name).map fun arity => ⟨name, arity⟩

def shared : List (String × Nat) :=
  [("__defineGetter__", 2), ("__defineSetter__", 2), ("hasOwnProperty", 1), ("__lookupGetter__", 1),
    ("__lookupSetter__", 1), ("isPrototypeOf", 1), ("propertyIsEnumerable", 1), ("toString", 0),
    ("valueOf", 0), ("toLocaleString", 0)]

def ofLists : List (String × Nat) :=
  [("at", 1), ("concat", 1), ("copyWithin", 2), ("entries", 0), ("every", 1), ("fill", 1), ("filter", 1),
    ("find", 1), ("findIndex", 1), ("findLast", 1), ("findLastIndex", 1), ("flat", 0), ("flatMap", 1),
    ("forEach", 1), ("includes", 1), ("indexOf", 1), ("join", 1), ("keys", 0), ("lastIndexOf", 1), ("map", 1),
    ("pop", 0), ("push", 1), ("reduce", 1), ("reduceRight", 1), ("reverse", 0), ("shift", 0), ("slice", 2),
    ("some", 1), ("sort", 1), ("splice", 2), ("toReversed", 0), ("toSorted", 1), ("toSpliced", 2),
    ("unshift", 1), ("values", 0), ("with", 2)]

def ofTexts : List (String × Nat) :=
  [("anchor", 1), ("at", 1), ("big", 0), ("blink", 0), ("bold", 0), ("charAt", 1), ("charCodeAt", 1),
    ("codePointAt", 1), ("concat", 1), ("endsWith", 1), ("fixed", 0), ("fontcolor", 1), ("fontsize", 1),
    ("includes", 1), ("indexOf", 1), ("isWellFormed", 0), ("italics", 0), ("lastIndexOf", 1), ("link", 1),
    ("localeCompare", 1), ("match", 1), ("matchAll", 1), ("normalize", 0), ("padEnd", 1), ("padStart", 1),
    ("repeat", 1), ("replace", 2), ("replaceAll", 2), ("search", 1), ("slice", 2), ("small", 0), ("split", 2),
    ("startsWith", 1), ("strike", 0), ("sub", 0), ("substr", 2), ("substring", 2), ("sup", 0),
    ("toLocaleLowerCase", 0), ("toLocaleUpperCase", 0), ("toLowerCase", 0), ("toUpperCase", 0),
    ("toWellFormed", 0), ("trim", 0), ("trimEnd", 0), ("trimLeft", 0), ("trimRight", 0), ("trimStart", 0)]

def ofNumbers : List (String × Nat) := [("toExponential", 1), ("toFixed", 1), ("toPrecision", 1)]

def ofCallables : List (String × Nat) := [("apply", 2), ("bind", 1), ("call", 1)]

def ofKind : ValueKind → List (String × Nat)
  | .number => ofNumbers
  | .text => ofTexts
  | .callable => ofCallables
  | .list => ofLists
  | _ => []

def maker : ValueKind → Callable
  | .bool => ⟨"Boolean", 1⟩
  | .number => ⟨"Number", 1⟩
  | .bigint => ⟨"BigInt", 1⟩
  | .text => ⟨"String", 1⟩
  | .callable => ⟨"Function", 1⟩
  | .list => ⟨"Array", 1⟩
  | .record => ⟨"Object", 1⟩

def made? (c : Callable) : Option ValueKind :=
  [ValueKind.bool, .number, .bigint, .text, .callable, .list, .record].find? fun kind => maker kind == c

def ofMaker : ValueKind → List (String × Nat)
  | .list => [("from", 1), ("fromAsync", 1), ("isArray", 1), ("of", 0)]
  | .record =>
    [("assign", 2), ("create", 2), ("defineProperties", 2), ("defineProperty", 3), ("entries", 1), ("freeze", 1),
      ("fromEntries", 1), ("getOwnPropertyDescriptor", 2), ("getOwnPropertyDescriptors", 1),
      ("getOwnPropertyNames", 1), ("getOwnPropertySymbols", 1), ("getPrototypeOf", 1), ("groupBy", 2),
      ("hasOwn", 2), ("is", 2), ("isExtensible", 1), ("isFrozen", 1), ("isSealed", 1), ("keys", 1),
      ("preventExtensions", 1), ("seal", 1), ("setPrototypeOf", 2), ("values", 1)]
  | _ => []

/-- Names that nobody may ask a callable for. -/
def isForbidden (name : String) : Bool := name == "caller" || name == "arguments"

/-- Names that nothing above a callable may be written under. -/
def guards (c : Callable) (name : String) : Bool :=
  isForbidden name || name == "name" || name == "length" || (name == "prototype" && c.made?.isSome)

theorem made?_maker (kind : ValueKind) : (maker kind).made? = some kind := by cases kind <;> decide

end Callable

end GovernedConfig
