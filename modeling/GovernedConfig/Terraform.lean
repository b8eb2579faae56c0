import GovernedConfig.Journal
import GovernedConfig.Text.Blank

/-! # Terraform commands

A deployment holds the default options of its commands. A command line is the words of the command,
one flag for each option in property order, and the arguments as they are.
-/

namespace GovernedConfig.Terraform

structure Deployment where
  /-- The path for state files. -/
  stateFile : Value
  /-- Default bindings; the options of a command override them. -/
  bindings : Record Value
  /-- How many operations run at a time. -/
  parallelism : Value
  /-- The resources that a command is limited to. -/
  targets : List Value
  /-- A file of variable definitions. -/
  variableFile : Value
  deriving DecidableEq

/-- Terraform never asks back; every value comes from the deployment or the command. -/
def input : Bool := false

/-- The entries of a value that is laid out into a record. -/
def spread : Value → Record Value
  | .record entries => Record.ofEntries entries
  | .list items => items.mapIdx fun i v => (toString i, v)
  | .text s => (Text.units s).mapIdx fun i n => (toString i, .text (String.ofList [Text.charOf n]))
  | _ => []

def orElse (v fallback : Value) : Value := if v.isPresent then v else fallback

/-- Makes a deployment of its options; the parallelism comes from the settings unless it is given. -/
def Deployment.ofOptions (options : Value) : Act Ambient Deployment := do
  let option (name : String) := Act.suitable (options.member? name)
  let stateFile ← option "stateFilePath"
  let bindings := spread (← option "terraformVariables")
  let parallelism ← option "parallelism"
  let parallelism ←
    if parallelism.isPresent then pure parallelism
    else do pure (.number (← Ambient.readSettings).parallelism)
  let targets ← Act.suitable (orElse (← option "resourceTargets") (.list [])).walk?
  let variableFile ← option "varDefinitionFile"
  pure { stateFile, bindings, parallelism, targets, variableFile }

def flagName (name : String) : String := String.ofList (name.toList.map fun c => if c = '_' then '-' else c)

def flag (name value : String) : String := "-" ++ name ++ "=" ++ value

/-- The options whose mappings expand to one flag for each entry. -/
def mappingOptions : List String := ["backend-config", "var"]

def listFlags (name : String) : List Value → Option (List String)
  | [] => some []
  | v :: vs =>
    match v.toText?, listFlags name vs with
    | some s, some rest => some (flag name s :: rest)
    | _, _ => none

def mappingFlags (name : String) : Record Value → Option (List String)
  | [] => some []
  | (key, v) :: entries =>
    match v.toText?, mappingFlags name entries with
    | some s, some rest => some (flag name (key ++ "=" ++ s) :: rest)
    | _, _ => none

/-- The flags of one option; a mapping is left out, and that is logged, unless the option takes one. -/
def optionFlags (name : String) (v : Value) : Act Ambient (List String) :=
  let name := flagName name
  match v with
  | .undefined => pure []
  | .null => pure []
  | .list items => Act.suitable (listFlags name items)
  | .record entries =>
    if name ∈ mappingOptions then Act.suitable (mappingFlags name entries)
    else do
      Journal.warn "terraform_option_ignored" "Mapping value is not supported for option"
        [("option", .text name)]
      pure []
  | v => Act.suitable (v.toText?.map fun s => [flag name s])

def allFlags : Record Value → Act Ambient (List String)
  | [] => pure []
  | (name, v) :: options => do
    let flags ← optionFlags name v
    pure (flags ++ (← allFlags options))

/-- The tokens of a command with options and arguments; only a text can be a command. -/
def commandList (command : Value) (options : Record Value) (args : List Value) : Act Ambient (List Value) :=
  match command with
  | .text words => do
    let flags ← allFlags options
    pure ((Text.words words ++ flags).map .text ++ args)
  | _ => Act.fail .badType

def rejectedByInit : List String := ["state", "target", "var", "var_file", "parallelism"]

namespace Deployment

variable (d : Deployment)

def defaults : Record Value :=
  [("state", d.stateFile), ("target", .list d.targets), ("var", .record d.bindings),
    ("var_file", d.variableFile), ("parallelism", d.parallelism), ("input", .bool input)]

/-- The defaults overlaid with the options of a command, without those that `init` rejects. -/
def defaultOptions (command : Value) (options : Record Value) : Record Value :=
  let merged := Record.overlay d.defaults options
  if command = .text "init" then rejectedByInit.foldl Record.erase merged else merged

def buildCommand (command : Value) (options : Record Value) (args : List Value) : Act Ambient (List Value) := do
  let words ← Act.suitable command.toText?
  let tokens ← commandList (.text ("terraform " ++ words)) (d.defaultOptions command options) args
  Journal.debug "terraform_command" "Built terraform command" [("tokens", .list tokens)]
  pure tokens

end Deployment

end GovernedConfig.Terraform
