import GovernedConfig.Scene

/-! # Lifecycle and dispatch

Construction hooks run field by field in declaration order, a hook bound to several fields once, at
its first field; then the entity is ready. Update hooks run when the field they watch is written.
The first failing hook ends a dispatch, and its failure is logged and passed on.
-/

namespace GovernedConfig

namespace Report

def evaluate (report : Report) (h : Hook) : Report := { report with evaluated := report.evaluated ++ [h.id] }

def fire (report : Report) (h : Hook) : Report := { report with fired := report.fired ++ [h.id] }

end Report

namespace Lifecycle

variable {ν : Type} (r : Registry) (scope : Scope ν)

def requireReady : Act (Scene ν) Unit := do
  let s ← get
  if s.entity.phase.acceptsUpdates then pure () else Act.fail (.wrongPhase .ready s.entity.phase)

/-- Runs the action of a hook; one that does not end at once is refused, and its later failure is
logged then. -/
def invoke (h : Hook) : Act (Scene ν) Unit := do
  match ← h.action.run scope (h.kind == .update) with
  | .finished => pure ()
  | .deferred failure =>
    match failure with
    | none => pure ()
    | some thrown => modify fun s =>
      { s with ambient := { s.ambient with rejections := s.ambient.rejections ++ [(h.id, thrown)] } }
    Act.fail (.asyncHook h.id)

/-- The journal's names for an entity. -/
def names : Act (Scene ν) (Record Value) := do
  pure [("entity", .text r.entityName), ("instance", .text (scope.label (← Scene.values)))]

def runHook (field : String) (t : Trigger) (h : Hook) : Act (Scene ν) Bool := do
  if ← h.condition.run scope false then
    try
      invoke scope h
    catch thrown =>
      let names ← names r scope
      Scene.around (Journal.error "hook_failed" "Hook rejected entity state" (names ++
        [("field", .text field), ("trigger", .text t.name), ("hookId", .text h.id),
          ("error", .text thrown.summary)]))
      throw thrown
    pure true
  else pure false

def runEach (field : String) (t : Trigger) : List Hook → Report → Act (Scene ν) Report
  | [], report => pure report
  | h :: hooks, report => do
    let acted ← runHook r scope field t h
    runEach field t hooks (if acted then (report.evaluate h).fire h else report.evaluate h)

def runHooks (field : String) (t : Trigger) (hooks : List Hook) : Act (Scene ν) Report := do
  let report ← runEach r scope field t hooks { field, trigger := t }
  if !report.fired.isEmpty then
    let names ← names r scope
    Scene.around (Journal.debug "hooks_dispatched" "Entity hooks fired" (names ++
      [("field", .text field), ("trigger", .text t.name), ("fired", .list (report.fired.map .text))]))
  pure report

def transition (target : Phase) : Act (Scene ν) Unit := do
  let origin := (← get).entity.phase
  let stamp ← Scene.around Ambient.stamp
  modify fun s => { s with entity := { s.entity with
    phase := target, history := s.entity.history ++ [⟨origin, target, stamp⟩] } }
  let names ← names r scope
  Scene.around (Journal.debug "lifecycle_transition" "Entity lifecycle state changed" (names ++
    [("from", .text origin.name), ("to", .text target.name)]))

/-- Runs the construction hooks of the given fields, except those whose keys were seen. -/
def runConstruction : List FieldSpec → (seen : List Nat) → List Report → Act (Scene ν) (List Report)
  | [], _, reports => pure reports
  | spec :: specs, seen, reports => do
    let hooks := spec.hooks.filter fun h => h.hasTrigger .postInit && !seen.contains h.key
    if hooks.isEmpty then runConstruction specs seen reports
    else
      let report ← runHooks r scope spec.name .postInit hooks
      runConstruction specs (seen ++ hooks.map Hook.key) (reports ++ [report])

def completeConstruction : Act (Scene ν) (List Report) := do
  let phase := (← get).entity.phase
  if !phase.canBecome .ready then Act.fail (.illegalTransition phase .ready)
  else
    let reports ← runConstruction r scope r.fields [] []
    transition r scope .ready
    pure reports

def dispatchUpdate (field : String) : Act (Scene ν) Report := do
  requireReady
  runHooks r scope field .postUpdate (← Act.ofExcept (r.hooksFor field .postUpdate))

end Lifecycle

end GovernedConfig
