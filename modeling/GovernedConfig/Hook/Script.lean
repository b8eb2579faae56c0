import GovernedConfig.Hook.Basic

/-! # Hook scripts

Conditions and actions written down as data. Each becomes a program that first leaves a mark with
the id of its hook, an action also saying whether it may assign.
-/

namespace GovernedConfig.Script

inductive Condition where
  | always (v : Value)
  | greater (field other : String)
  | greaterThan (field : String) (v : Value)
  | equals (field : String) (v : Value)
  | isEmpty (field : String)
  | negation (c : Condition)
  | raise (message : String)

/-- What an action answers with at its end. -/
inductive Answer where
  | plain
  | later
  | laterFailing (thrown : Thrown)

inductive Step where
  | raise (thrown : Thrown)
  | invariant (reason : String) (fields : List String)
  | invariantGreater (field other : String)
  | assign (field : String) (v : Value)
  | copy (source target : String)
  | increment (field : String) (amount : Value)
  | append (field : String) (v : Value)
  | appendField (field other : String)
  | read (field : String)
  | pushOntoRead (field : String) (v : Value)
  | set (field : String) (v : Value)
  | answer (a : Answer)

def Condition.program : Condition → Program Bool
  | always v => .done v.truthy
  | greater field other => do
    let v ← Program.read field
    let w ← Program.read other
    Program.suitable (w.less? v)
  | greaterThan field w => do
    let v ← Program.read field
    Program.suitable (w.less? v)
  | equals field w => do
    let v ← Program.read field
    pure (v.same w)
  | isEmpty field => do
    let v ← Program.read field
    let size ← Program.suitable (v.member? "length")
    pure (size.same (.number 0))
  | negation c => do
    let b ← c.program
    pure !b
  | raise message => .fail (.plain message)

def readAll : List String → Record Value → Program (Record Value)
  | [], r => .done r
  | field :: rest, r => do
    let v ← Program.read field
    readAll rest (Record.insert r field v)

/-- What a step does, written down at a spot; the answer of the action if it ends there. -/
def Step.program (hook : String) (spot : Spot) : Step → Program (Option Completion)
  | raise thrown => .raise thrown
  | invariant reason fields => do
    let r ← readAll fields []
    .fail (.invariant hook reason r)
  | invariantGreater field other => do
    let v ← Program.read field
    let s ← Program.suitable v.toText?
    let w ← Program.read other
    let t ← Program.suitable w.toText?
    .fail (.invariant hook (s ++ " > " ++ t) [])
  | assign field v => do
    Program.store field (.constant spot v)
    pure none
  | copy source target => do
    Program.store target (.held source)
    pure none
  | increment field amount => do
    let v ← Program.read field
    let sum ← Program.suitable (v.plus? amount)
    Program.write field sum
    pure none
  | append field v => do
    Program.store field (.extended field (.constant spot v))
    pure none
  | appendField field other => do
    Program.store field (.extended field (.held other))
    pure none
  | read field => do
    let _ ← Program.read field
    pure none
  | pushOntoRead field v => do
    Program.grow field (.constant spot v)
    pure none
  | set field v => do
    let _ ← Program.update field v
    pure none
  | answer a => pure (some (match a with
    | .plain => .finished
    | .later => .deferred none
    | .laterFailing thrown => .deferred (some thrown)))

/-- The steps of the action of a hook, told by the key of the hook and their positions. -/
def steps (hook : String) (key : Nat) : (position : Nat) → List Step → Program Completion
  | _, [] => .done .finished
  | position, s :: rest => do
    match ← s.program hook (key, position) with
    | some completion => pure completion
    | none => steps hook key (position + 1) rest

def condition (hook : String) (c : Condition) : Program Bool := .mark ("if:" ++ hook) c.program

def action (hook : String) (key : Nat) (ss : List Step) : Program Completion :=
  .mayAssign fun may => .mark ("do:" ++ hook ++ (if may then ":rw" else ":ro")) (steps hook key 0 ss)

end GovernedConfig.Script
