import GovernedConfig.Hook.Program
import GovernedConfig.Text.Blank

/-! # Hooks

A hook has a condition, which only reads, and an action. The action of a generic hook only reads
and throws to reject; that of an update hook may assign. Drafts come from outside and are checked.
-/

namespace GovernedConfig

inductive HookKind where
  | generic
  | update
  deriving DecidableEq

def HookKind.name : HookKind → String
  | .generic => "generic"
  | .update => "update"

structure Hook where
  /-- Tells hooks apart that share an id. -/
  key : Nat
  id : String
  kind : HookKind
  triggers : List Trigger
  condition : Program Bool
  action : Program Completion
  /-- What the hook is for; nothing checks it. -/
  description : Value := .undefined

/-- What stands where a callback is expected: a program or something else. -/
inductive Callback (α : Type) where
  | program (p : Program α)
  | other

namespace Hook

structure Draft where
  kind : HookKind
  id : Value
  triggers : Value
  condition : Option (Callback Bool) := none
  action : Callback Completion
  description : Value := .undefined

def hasTrigger (h : Hook) (t : Trigger) : Bool := h.triggers.contains t

/-- What messages call the action and the condition of a hook. -/
def actionName : HookKind → String
  | .generic => "hookFunction"
  | .update => "updateFunction"

def conditionName : HookKind → String
  | .generic => "hookCondition"
  | .update => "updateCondition"

def scopeOf (id : String) : String := "hook \"" ++ id ++ "\""

/-- A usable id is a text that is not blank throughout. -/
def checkId : Value → Except Fault String
  | .text s =>
    if (Text.trim s.toList).isEmpty then .error (.hookRegistration "hook" "id must be a non-empty string")
    else .ok s
  | _ => .error (.hookRegistration "hook" "id must be a non-empty string")

def checkCallback {α : Type} (id name : String) : Callback α → Except Fault (Program α)
  | .program p => .ok p
  | .other => .error (.hookRegistration (scopeOf id) (name ++ " must be a function"))

/-- Keeps the first of equal triggers. -/
def collectTriggers (id : String) : List Trigger → List Value → Except Fault (List Trigger)
  | found, [] => .ok found
  | found, v :: vs =>
    let known? := match v with
      | .text s => Trigger.ofName? s
      | _ => none
    match known? with
    | some t => collectTriggers id (if found.contains t then found else found ++ [t]) vs
    | none => match v.toText? with
      | some s => .error (.hookRegistration (scopeOf id) ("unknown trigger \"" ++ s ++ "\""))
      | none => .error .badType

def checkTriggers (id : String) (v : Value) : Except Fault (List Trigger) :=
  match v.member? "length" with
  | none => .error .badType
  | some size =>
    if size.same (.number 0) then
      .error (.hookRegistration (scopeOf id) "at least one trigger is required")
    else match v.walk? with
      | some items => collectTriggers id [] items
      | none => .error .badType

/-- Makes a hook of a draft: id, action, condition and triggers are checked in this order. -/
def ofDraft (key : Nat) (d : Draft) : Except Fault Hook := do
  let id ← checkId d.id
  let action ← checkCallback id (actionName d.kind) d.action
  let condition ← match d.condition with
    | none => pure (Program.done true)
    | some c => checkCallback id (conditionName d.kind) c
  let triggers ← checkTriggers id d.triggers
  pure { key, id, kind := d.kind, triggers, condition, action, description := d.description }

end Hook

end GovernedConfig
