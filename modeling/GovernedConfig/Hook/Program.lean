import GovernedConfig.Fault
import GovernedConfig.Shelf

/-! # Hook programs

Conditions and actions of hooks are programs: trees of requests to the entity they watch. The
reaction to each request, also to its failure, is part of the tree, so a program may do whatever
code with access to the entity could do: read, assign, push onto what it read, write the entity
anew, throw, or answer.
-/

namespace GovernedConfig

inductive Trigger where
  | postInit
  | postUpdate
  deriving DecidableEq

namespace Trigger

def name : Trigger → String
  | postInit => "POST_INIT"
  | postUpdate => "POST_UPDATE"

def ofName? (s : String) : Option Trigger := [postInit, postUpdate].find? fun t => t.name == s

theorem ofName?_name (t : Trigger) : ofName? t.name = some t := by cases t <;> rfl

end Trigger

/-- Which hooks a dispatch evaluated and which of them acted. -/
structure Report where
  field : String
  trigger : Trigger
  evaluated : List String := []
  fired : List String := []
  deriving DecidableEq

/-- How an action ends: at once, or later, then perhaps by failing. -/
inductive Completion where
  | finished
  | deferred (failure : Option Thrown)

/-- What a program assigns or pushes. It names fields rather than values where it hands on what it read, for
that may be a copy or the very thing. -/
inductive Source where
  | value (v : Value)
  /-- A value that the program writes down at a spot. -/
  | constant (spot : Spot) (v : Value)
  | held (field : String)
  /-- The members that a field holds, and one more. -/
  | extended (field : String) (last : Source)
  deriving DecidableEq

inductive Program (α : Type) where
  | done (a : α)
  | raise (thrown : Thrown)
  | get (field : String) (next : Except Thrown Value → Program α)
  | assign (field : String) (source : Source) (next : Except Thrown Unit → Program α)
  /-- Pushes onto the list that a read answers with. -/
  | push (field : String) (source : Source) (next : Except Thrown Unit → Program α)
  /-- Writes the entity as a caller would. -/
  | set (field : String) (v : Value) (next : Except Thrown Report → Program α)
  /-- Reads the clock, in whole seconds. -/
  | seconds (next : Binary64 → Program α)
  | mark (s : String) (next : Program α)
  /-- Asks whether the program may assign. -/
  | mayAssign (next : Bool → Program α)

namespace Program

variable {α β : Type}

def bind (p : Program α) (f : α → Program β) : Program β :=
  match p with
  | done a => f a
  | raise thrown => raise thrown
  | get field next => get field fun r => (next r).bind f
  | assign field source next => assign field source fun r => (next r).bind f
  | push field source next => push field source fun r => (next r).bind f
  | set field v next => set field v fun r => (next r).bind f
  | seconds next => seconds fun x => (next x).bind f
  | mark s next => mark s (next.bind f)
  | mayAssign next => mayAssign fun b => (next b).bind f

instance : Monad Program where
  pure := done
  bind := bind

/-- Goes on with the answer of a request, or lets its failure through. -/
def orRaise : Except Thrown α → Program α
  | .ok a => done a
  | .error thrown => raise thrown

def fail (cause : Fault) : Program α := raise (.fault cause)

def suitable : Option α → Program α
  | some a => done a
  | none => fail .badType

def read (field : String) : Program Value := get field orRaise

def write (field : String) (v : Value) : Program Unit := assign field (.value v) orRaise

/-- Reads what a source names; a source that cannot be read fails here. -/
def demand : Source → Program Unit
  | .held field => do
    let _ ← read field
    pure ()
  | .extended field last => do
    let v ← read field
    let _ ← suitable v.walk?
    demand last
  | _ => done ()

/-- Assigns what a source names, which is read first, also where nothing may be assigned. -/
def store (field : String) (source : Source) : Program Unit := do
  demand source
  assign field source orRaise

def grow (field : String) (source : Source) : Program Unit := push field source orRaise

def update (field : String) (v : Value) : Program Report := set field v orRaise

def now : Program Binary64 := seconds done

end Program

end GovernedConfig
