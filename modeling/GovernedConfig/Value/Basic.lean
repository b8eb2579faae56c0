import GovernedConfig.Number.Arithmetic
import GovernedConfig.Text.Units
import GovernedConfig.Value.Callable
import GovernedConfig.Value.Record

/-! # Configuration values

The values that fields, defaults, options and payloads may hold. Some names are answered by every
value, whether it holds them or not: they are the reserved names, and what they answer is a callable
that cannot be copied, except that `__proto__` answers what the value stands on. Lists, texts,
numbers and callables answer further names of their own.
-/

namespace GovernedConfig

inductive Value where
  | undefined
  | null
  | bool (b : Bool)
  | number (x : Binary64)
  | bigint (i : Int)
  | text (s : String)
  | callable (c : Callable)
  | list (items : List Value)
  | record (entries : List (String × Value))
  deriving Inhabited

namespace Value

/-- A field counts as present once it holds anything but `undefined` and `null`. -/
def isPresent : Value → Bool
  | undefined => false
  | null => false
  | _ => true

def truthy : Value → Bool
  | undefined => false
  | null => false
  | bool b => b
  | number x => x.isNonzero
  | bigint i => i != 0
  | text s => s != ""
  | _ => true

def isInteger : Value → Bool
  | number x => x.isInteger
  | _ => false

/-- Equality of plain values; two lists or two records are never the same one. -/
def same : Value → Value → Bool
  | undefined, undefined => true
  | null, null => true
  | bool a, bool b => a == b
  | number x, number y => x.equals y
  | bigint i, bigint j => i == j
  | text s, text t => s == t
  | callable c, callable d => c == d
  | _, _ => false

/-- Equality of the members of a set, and of the keys of a map. -/
def sameKey : Value → Value → Bool
  | number x, number y => x.sameValueZero y
  | v, w => v.same w

/-- The names that every value answers. -/
def reserved : List String := "constructor" :: "__proto__" :: Callable.shared.map Prod.fst

def base : ValueKind → Value
  | .list => list []
  | .callable => callable .anonymous
  | _ => record []

def inherited (kind : ValueKind) (name : String) : Value :=
  if name = "__proto__" then base kind
  else if name = "constructor" then callable (.maker kind)
  else match Callable.find? (Callable.ofKind kind ++ Callable.shared) name with
    | some c => callable c
    | none => undefined

def lookUp (r : Record Value) (name : String) : Value := (r.lookup name).getD (inherited .record name)

/-- What a list of a size answers to a name that is no index. -/
def besideItems (size : Nat) (name : String) : Value :=
  if name = "length" then number (.ofNat size) else inherited .list name

/-- What a callable answers to a name, if it may be asked for it. -/
def ofCallable? (c : Callable) (name : String) : Option Value :=
  if Callable.isForbidden name then none
  else if name = "name" then some (text c.name)
  else if name = "length" then some (number (.ofNat c.arity))
  else match c.made? with
    | some kind =>
      if name = "prototype" then some (base kind)
      else some (((Callable.find? (Callable.ofMaker kind) name).map callable).getD (inherited .callable name))
    | none => some (inherited .callable name)

/-- What a value answers to a name; `undefined` and `null` answer nothing. -/
def member? (v : Value) (name : String) : Option Value :=
  match v with
  | undefined => none
  | null => none
  | bool _ => some (inherited .bool name)
  | number _ => some (inherited .number name)
  | bigint _ => some (inherited .bigint name)
  | text s =>
    if name = "length" then some (number (.ofNat (Text.length s)))
    else match Record.index? name with
      | some i => some (((Text.unit? s i).map text).getD undefined)
      | none => some (inherited .text name)
  | callable c => ofCallable? c name
  | list items =>
    match Record.index? name with
    | some i => some (items[i]?.getD undefined)
    | none => some (besideItems items.length name)
  | record entries => some (lookUp entries name)

theorem inherited_record {name : String} (h : name ∉ reserved) : inherited .record name = undefined := by
  simp only [reserved, List.mem_cons, List.mem_map, not_or] at h
  obtain ⟨hmaker, hbase, hshared⟩ := h
  have hlookup : Callable.shared.lookup name = none := by
    refine List.lookup_eq_none_iff.mpr fun p hp => ?_
    simpa using fun hn : name = p.1 => hshared ⟨p, hp, hn.symm⟩
  simp [inherited, Callable.find?, Callable.ofKind, hbase, hmaker, hlookup]

theorem member?_record {entries : Record Value} {name : String} (h : name ∉ reserved) :
    (record entries).member? name = some ((entries.lookup name).getD undefined) := by
  rw [member?, lookUp, inherited_record h]

/-- The names that a value holds itself, in property order; `undefined` and `null` have none to ask. -/
def ownNames? : Value → Option (List String)
  | undefined => none
  | null => none
  | record entries => some (Record.names entries)
  | list items => some ((List.range items.length).map toString)
  | text s => some ((List.range (Text.length s)).map toString)
  | _ => some []

/-- The members of a value that can be walked: a list, or a text by its characters. -/
def walk? : Value → Option (List Value)
  | list items => some items
  | text s => some ((Text.points s.toList).map text)
  | _ => none

/-- A list with one more member; no other value takes one. -/
def push? (v w : Value) : Option Value :=
  match v with
  | list items => some (list (items ++ [w]))
  | _ => none

/-- A zero without its sign; any other value as it is. -/
def unsigned : Value → Value
  | number x => if x.isNonzero || x.isNan then number x else number 0
  | v => v

/-- The members of a list that equal none before them and none of `seen`. -/
def distinctFrom (seen : List Value) : List Value → List Value
  | [] => []
  | v :: vs => if seen.any v.sameKey then distinctFrom seen vs else v.unsigned :: distinctFrom (v :: seen) vs

def distinct (items : List Value) : List Value := distinctFrom [] items

mutual

/-- Whether a copy can be made: callables cannot be copied. -/
def isCopyable : Value → Bool
  | callable _ => false
  | list items => allCopyable items
  | record entries => entriesCopyable entries
  | _ => true

def allCopyable : List Value → Bool
  | [] => true
  | v :: vs => v.isCopyable && allCopyable vs

def entriesCopyable : List (String × Value) → Bool
  | [] => true
  | (_, v) :: rest => v.isCopyable && entriesCopyable rest

end

mutual

def decEq : (v w : Value) → Decidable (v = w)
  | undefined, w => by cases w <;> first | exact isTrue rfl | exact isFalse (by simp)
  | null, w => by cases w <;> first | exact isTrue rfl | exact isFalse (by simp)
  | bool a, w => by
    cases w with
    | bool b => exact decidable_of_iff (a = b) (by simp)
    | _ => exact isFalse (by simp)
  | number a, w => by
    cases w with
    | number b => exact decidable_of_iff (a = b) (by simp)
    | _ => exact isFalse (by simp)
  | bigint a, w => by
    cases w with
    | bigint b => exact decidable_of_iff (a = b) (by simp)
    | _ => exact isFalse (by simp)
  | text a, w => by
    cases w with
    | text b => exact decidable_of_iff (a = b) (by simp)
    | _ => exact isFalse (by simp)
  | callable a, w => by
    cases w with
    | callable b => exact decidable_of_iff (a = b) (by simp)
    | _ => exact isFalse (by simp)
  | list a, w => by
    cases w with
    | list b => exact @decidable_of_iff _ (a = b) (by simp) (decEqList a b)
    | _ => exact isFalse (by simp)
  | record a, w => by
    cases w with
    | record b => exact @decidable_of_iff _ (a = b) (by simp) (decEqEntries a b)
    | _ => exact isFalse (by simp)

def decEqList : (vs ws : List Value) → Decidable (vs = ws)
  | [], [] => isTrue rfl
  | [], _ :: _ => isFalse (by simp)
  | _ :: _, [] => isFalse (by simp)
  | v :: vs, w :: ws =>
    match decEq v w, decEqList vs ws with
    | isTrue h, isTrue hs => isTrue (by rw [h, hs])
    | isFalse h, _ => isFalse (by simp [h])
    | _, isFalse h => isFalse (by simp [h])

def decEqEntries : (r s : List (String × Value)) → Decidable (r = s)
  | [], [] => isTrue rfl
  | [], _ :: _ => isFalse (by simp)
  | _ :: _, [] => isFalse (by simp)
  | (k, v) :: r, (l, w) :: s =>
    match decEq v w, decEqEntries r s with
    | isTrue h, isTrue hs => if hk : k = l then isTrue (by rw [h, hs, hk]) else isFalse (by simp [hk])
    | isFalse h, _ => isFalse (by simp [h])
    | _, isFalse h => isFalse (by simp [h])

end

instance : DecidableEq Value := decEq

end Value

end GovernedConfig
