import GovernedConfig.Hook.Basic

/-! # Rules of an infra config

The hooks that keep an infra config sound: whole numbers above their minima, at most as many PID
containers as MPC containers, a status history that starts with the first status, grows by each
written one and never goes back in time, and features without repetition.
-/

namespace GovernedConfig.InfraConfig

def statuses : List String :=
  ["UNKNOWN", "CREATED",
    "INPUT_DATA_VALIDATION_STARTED", "INPUT_DATA_VALIDATION_COMPLETED", "INPUT_DATA_VALIDATION_FAILED",
    "ID_MATCHING_STARTED", "ID_MATCHING_COMPLETED", "ID_MATCHING_FAILED",
    "COMPUTATION_STARTED", "COMPUTATION_COMPLETED", "COMPUTATION_FAILED",
    "AGGREGATION_STARTED", "AGGREGATION_COMPLETED", "AGGREGATION_FAILED",
    "POST_PROCESSING_HANDLERS_STARTED", "POST_PROCESSING_HANDLERS_COMPLETED", "POST_PROCESSING_HANDLERS_FAILED",
    "PROCESSING_REQUEST", "TIMEOUT"]

namespace Rules

open Program

def statusUpdate (status stamp : Value) : Value := .record [("status", status), ("statusUpdateTs", stamp)]

def stampOf (entry : Value) : Option Value := entry.member? "statusUpdateTs"

/-- Appends the current status and its stamp to the history. -/
def appendStatus : Program Unit := do
  let status ← read "status"
  let stamp ← read "statusUpdateTs"
  let history ← read "statusUpdates"
  let entries ← suitable history.walk?
  write "statusUpdates" (.list (entries ++ [statusUpdate status stamp]))

/-- The stamp of the last entry of the history, or the current one if there is none. -/
def latestStamp : Program Value := do
  let history ← read "statusUpdates"
  let last ← suitable history.last?
  if last.truthy then suitable (stampOf last) else read "statusUpdateTs"

/-- Stamps a written status, never earlier than the one before, and records it. -/
def stampStatus : Program Unit := do
  let now ← now
  let latest ← latestStamp
  let latest ← suitable latest.toOperand?
  write "statusUpdateTs" (.number (now.max latest))
  appendStatus

/-- Whether a value answers a number of its members to its length; none if it cannot be asked. -/
def hasLength (v : Value) (n : Nat) : Option Bool :=
  match v with
  | .list items => some (items.length == n)
  | .text s => some (Text.length s == n)
  | v => (v.member? "length").map fun size => size.same (.number (.ofNat n))

/-- Whether a stamp may stand behind the one before it, if there is one. -/
def stampFits (before : Option Binary64) : Value → Option Binary64
  | .number x =>
    if x.isInteger && !x.less 0 && !before.any fun y => x.less y then some x else none
  | _ => none

/-- The first entry whose stamp is no whole number from zero up or lies before its predecessor's,
with its position; a history that cannot be asked is unsuitable. -/
def firstOutOfOrder (before : Option Binary64) (position : Nat) : List Value → Option (Option (Nat × Value))
  | [] => some none
  | entry :: entries =>
    match stampOf entry with
    | none => none
    | some stamp =>
      match stampFits before stamp with
      | some x => firstOutOfOrder (some x) (position + 1) entries
      | none => some (some (position, stamp))

def outOfOrder : Program (Option (Nat × Value)) := do
  match ← read "statusUpdates" with
  | .list entries => suitable (firstOutOfOrder none 0 entries)
  | _ => fail .badType

def rejectOutOfOrder : Program Unit := do
  match ← outOfOrder with
  | none => pure ()
  | some (position, stamp) =>
    let s ← suitable stamp.toText?
    fail (.invariant "status-history-order"
      ("statusUpdates[" ++ toString position ++ "] has timestamp " ++ s ++
        "; timestamps must be non-negative integers in non-decreasing order")
      [("index", .number (.ofNat position)), ("statusUpdateTs", stamp)])

def containerHook : String := "pid-mpc-container-count"

def tooManyPidContainers : Program Bool := do
  let pid ← read "numPidContainers"
  let mpc ← read "numMpcContainers"
  if pid.isPresent && mpc.isPresent then suitable (mpc.less? pid) else pure false

def rejectContainers : Program Unit := do
  let pid ← read "numPidContainers"
  let mpc ← read "numMpcContainers"
  let s ← suitable pid.toText?
  let t ← suitable mpc.toText?
  fail (.invariant containerHook
    ("numPidContainers must be less than or equal to numMpcContainers (" ++ s ++ " > " ++ t ++ ")")
    [("numPidContainers", pid), ("numMpcContainers", mpc)])

def emptyInstanceId : Program Bool := do suitable (hasLength (← read "instanceId") 0)

/-- Whether a value is a whole number of at least `minimum`. -/
def reaches (minimum : Nat) : Value → Bool
  | .number x => x.isInteger && !x.less (.ofNat minimum)
  | _ => false

def rejectBelow (field : String) (minimum : Nat) : Program Unit := do
  let v ← read field
  let s ← suitable v.toText?
  fail (.invariant (field ++ "-minimum")
    (field ++ " must be an integer of at least " ++ toString minimum ++ " (got " ++ s ++ ")") [(field, v)])

/-- The members of a value without repetition; a missing value has none. -/
def distinctMembers : Value → Option (List Value)
  | .null => some []
  | v => v.walk?.map Value.distinct

def hasRepetition : Program Bool := do
  let features ← read "pcsFeatures"
  let members ← suitable (distinctMembers features)
  let same ← suitable (hasLength features members.length)
  pure !same

def removeRepetition : Program Unit := do
  let features ← read "pcsFeatures"
  let members ← suitable (distinctMembers features)
  write "pcsFeatures" (.list members)

end Rules

open Rules

/-- A rule that never ends later. -/
def atOnce (body : Program Unit) : Program Completion := do
  body
  pure .finished

def postStatusHook : Hook where
  key := 0
  id := "post-status-update"
  kind := .update
  triggers := [.postUpdate]
  condition := .done true
  action := atOnce stampStatus
  description := .text "Refresh statusUpdateTs and append to statusUpdates"

def seedHistoryHook : Hook where
  key := 1
  id := "seed-status-history"
  kind := .update
  triggers := [.postInit]
  condition := do Program.suitable (hasLength (← Program.read "statusUpdates") 0)
  action := atOnce appendStatus
  description := .text "Record the initial status of a new instance"

def historyOrderHook : Hook where
  key := 2
  id := "status-history-order"
  kind := .generic
  triggers := [.postInit]
  condition := do pure (← outOfOrder).isSome
  action := atOnce rejectOutOfOrder

def containerCountHook : Hook where
  key := 3
  id := containerHook
  kind := .generic
  triggers := [.postInit, .postUpdate]
  condition := tooManyPidContainers
  action := atOnce rejectContainers

def instanceIdHook : Hook where
  key := 4
  id := "instanceId-required"
  kind := .generic
  triggers := [.postInit]
  condition := emptyInstanceId
  action := .fail (.invariant "instanceId-required" "instanceId must be a non-empty string" [])

def featuresHook : Hook where
  key := 5
  id := "normalize-pcs-features"
  kind := .update
  triggers := [.postInit, .postUpdate]
  condition := hasRepetition
  action := atOnce removeRepetition

def minimumHook (key : Nat) (field : String) (minimum : Nat) : Hook where
  key
  id := field ++ "-minimum"
  kind := .generic
  triggers := [.postInit, .postUpdate]
  condition := do pure !(reaches minimum (← Program.read field))
  action := atOnce (rejectBelow field minimum)

end GovernedConfig.InfraConfig
