import GovernedConfig.Ambient

/-! # The journal

An entry is written if its level reaches the threshold. It is one JSON text with a time stamp;
writing fails if the clock has no date, if the data have no JSON text, or if the threshold has to
come from settings that cannot be read.
-/

namespace GovernedConfig.Journal

def labelOf (context : Value) (name : String) : Value := (context.member? name).getD .undefined

/-- An entry; a label that says nothing gives way to `unknown`, or is left out. -/
def entry (stamp : String) (level : Level) (context phase message data : Value) : Value :=
  let instanceId := labelOf context "instanceId"
  let entity := labelOf context "entity"
  .record
    ([("timestamp", .text stamp), ("level", .text level.name),
      ("instanceId", if instanceId.truthy then instanceId else .text "unknown"),
      ("phase", phase), ("message", message), ("data", data)] ++
      if entity.truthy then [("entity", entity)] else [])

/-- The level from which on entries are written; a threshold that names no level holds none back. -/
def threshold : Act Ambient (Option Level) := do
  let named := (← get).threshold
  if named.isPresent then pure (Level.ofName? (← Act.suitable named.toText?))
  else pure (some (← Ambient.readSettings).threshold)

def write (level : Level) (phase message data : Value) : Act Ambient Unit := do
  if (← threshold).any fun least => level.rank < least.rank then pure ()
  else
    let stamp ← Ambient.stamp
    let line ← Act.suitable (Json.print? (entry stamp level (← get).context phase message data))
    modify fun m => { m with lines := m.lines ++ [line] }

def debug (phase message : String) (data : Record Value) : Act Ambient Unit :=
  write .debug (.text phase) (.text message) (.record data)

def info (phase message : String) (data : Record Value) : Act Ambient Unit :=
  write .info (.text phase) (.text message) (.record data)

def warn (phase message : String) (data : Record Value) : Act Ambient Unit :=
  write .warn (.text phase) (.text message) (.record data)

def error (phase message : String) (data : Record Value) : Act Ambient Unit :=
  write .error (.text phase) (.text message) (.record data)

/-- Logs the failures of refused actions; an entry that cannot be written is lost. -/
def settle (m : Ambient) : Ambient :=
  m.rejections.foldl (fun m (hook, thrown) =>
    match error "async_hook_rejected" "Asynchronous hook settled with an error after being refused"
        [("hookId", .text hook), ("error", .text thrown.summary)] m with
    | .ok _ m => m
    | .error _ m => m) { m with rejections := [] }

end GovernedConfig.Journal
