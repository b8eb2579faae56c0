import GovernedConfig.Schema.Basic
import GovernedConfig.Value.Conversion

/-! # Checking values against schemas

A check answers with the value that the schema makes of its input, or with every complaint, in the
order of the schema.
-/

namespace GovernedConfig

inductive Complaint where
  | required
  | wrongKind (expected received : String)
  | wrongOption (options : List String) (received : String)
  | wrongLiteral (expected : String)
  | wrongTag (options : List String)
  | noAlternative
  | violates (rule : NumberRule)
  | tooShort (minimum : Nat)
  /-- The value cannot be taken as a number at all. -/
  | unreadable
  deriving DecidableEq

namespace Complaint

def alternatives (options : List String) : String :=
  " | ".intercalate (options.map fun o => "'" ++ o ++ "'")

def message : Complaint → String
  | required => "Required"
  | wrongKind expected received => "Expected " ++ expected ++ ", received " ++ received
  | wrongOption options received =>
    "Invalid enum value. Expected " ++ alternatives options ++ ", received '" ++ received ++ "'"
  | wrongLiteral expected => "Invalid literal value, expected \"" ++ expected ++ "\""
  | wrongTag options => "Invalid discriminator value. Expected " ++ alternatives options
  | noAlternative => "Invalid input"
  | violates .integer => "Expected integer, received float"
  | violates .positive => "Number must be greater than 0"
  | violates .nonnegative => "Number must be greater than or equal to 0"
  | tooShort minimum => "String must contain at least " ++ toString minimum ++ " character(s)"
  | unreadable => "Unsuitable value"

end Complaint

structure Issue where
  path : List String
  complaint : Complaint

namespace Issue

def under (step : String) (issue : Issue) : Issue := { issue with path := step :: issue.path }

/-- The text of an issue; `root` names the whole value. -/
def text (root : String) (issue : Issue) : String :=
  let path := ".".intercalate issue.path
  (if path = "" then root else path) ++ ": " ++ issue.complaint.message

end Issue

/-- The kind of a value, as complaints name it. -/
def Value.kind : Value → String
  | .undefined => "undefined"
  | .null => "null"
  | .bool _ => "boolean"
  | .number x => if x.isNan then "nan" else "number"
  | .bigint _ => "bigint"
  | .text _ => "string"
  | .callable _ => "function"
  | .list _ => "array"
  | .record _ => "object"

namespace Schema

def complain (c : Complaint) : Except (List Issue) Value := .error [⟨[], c⟩]

/-- The complaint about a value of the wrong kind; an absent value is merely required. -/
def mismatch (expected : String) (v : Value) : Except (List Issue) Value :=
  complain (if v = .undefined then .required else .wrongKind expected v.kind)

def checkNumber (rules : List NumberRule) (x : Binary64) : Except (List Issue) Value :=
  if x.isNan then complain (.wrongKind "number" "nan")
  else match rules.filter (!·.holds x) with
    | [] => .ok (.number x)
    | broken => .error (broken.map fun rule => ⟨[], .violates rule⟩)

/-- The members of a list that all pass, or every complaint of those that do not. -/
def checkMembers (check : Value → Except (List Issue) Value) :
    (position : Nat) → List Value → Except (List Issue) (List Value)
  | _, [] => .ok []
  | i, v :: vs =>
    match check v, checkMembers check (i + 1) vs with
    | .ok w, .ok ws => .ok (w :: ws)
    | .ok _, .error issues => .error issues
    | .error issues, .ok _ => .error (issues.map (·.under (toString i)))
    | .error issues, .error more => .error (issues.map (·.under (toString i)) ++ more)

mutual

def check : Schema → Value → Except (List Issue) Value
  | text minimum, v =>
    match v with
    | .text s => if Text.length s < minimum then complain (.tooShort minimum) else .ok v
    | _ => mismatch "string" v
  | number rules, v =>
    match v with
    | .number x => checkNumber rules x
    | _ => mismatch "number" v
  | numeral rules, v =>
    match v.toNumber? with
    | some x => checkNumber rules x
    | none => complain .unreadable
  | flag, v =>
    match v with
    | .bool _ => .ok v
    | _ => mismatch "boolean" v
  | oneOf options, v =>
    match v with
    | .text s => if s ∈ options then .ok v else complain (.wrongOption options s)
    | _ => mismatch (Complaint.alternatives options) v
  | exactly option, v => if v = .text option then .ok v else complain (.wrongLiteral option)
  | oneOfNumbers options, v =>
    if options.any fun x => v.same (.number x) then .ok v else complain .noAlternative
  | anyRecord, v =>
    match v with
    | .record entries => .ok (.record (Record.erase entries "__proto__"))
    | _ => mismatch "object" v
  | nullable inner, v => if v = .null then .ok v else inner.check v
  | optional inner, v => if v = .undefined then .ok v else inner.check v
  | withDefault default inner, v => inner.check (if v = .undefined then default else v)
  | listOf inner, v =>
    match v with
    | .list items => (checkMembers inner.check 0 items).map .list
    | _ => mismatch "array" v
  | fields entries, v =>
    match v with
    | .record r => (checkFields entries r).map .record
    | _ => mismatch "object" v
  | tagged tag variants, v =>
    match v with
    | .record r =>
      (checkVariants variants ((r.lookup tag).getD .undefined) v).getD
        (.error [⟨[tag], .wrongTag (variants.map Prod.fst)⟩])
    | _ => mismatch "object" v

/-- The entries of a record schema in its order; an entry that stays undefined is kept only if the
record holds its name. -/
def checkFields : List (String × Schema) → Record Value → Except (List Issue) (Record Value)
  | [], _ => .ok []
  | (name, schema) :: rest, r =>
    match schema.check ((r.lookup name).getD .undefined), checkFields rest r with
    | .ok v, .ok more =>
      .ok (if v = .undefined ∧ !Record.holds r name then more else (name, v) :: more)
    | .ok _, .error issues => .error issues
    | .error issues, .ok _ => .error (issues.map (·.under name))
    | .error issues, .error more => .error (issues.map (·.under name) ++ more)

/-- The variant whose name the tag is; none if there is no such variant. -/
def checkVariants : List (String × Schema) → (tag : Value) → Value → Option (Except (List Issue) Value)
  | [], _, _ => none
  | (name, schema) :: rest, tag, v =>
    if tag = .text name then some (schema.check v) else checkVariants rest tag v

end

section Unfolding

variable (inner schema : Schema) (name : String) (rest : List (String × Schema)) (v : Value)

theorem check_nullable : (nullable inner).check v = if v = .null then .ok v else inner.check v := by rw [check]

theorem check_optional : (optional inner).check v = if v = .undefined then .ok v else inner.check v := by rw [check]

theorem check_withDefault (default : Value) :
    (withDefault default inner).check v = inner.check (if v = .undefined then default else v) := by rw [check]

theorem check_listOf (items : List Value) :
    (listOf inner).check (.list items) = (checkMembers inner.check 0 items).map .list := by rw [check]

theorem check_fields (entries : List (String × Schema)) (r : Record Value) :
    (fields entries).check (.record r) = (checkFields entries r).map .record := by rw [check]

theorem checkMembers_cons (check : Value → Except (List Issue) Value) (i : Nat) (vs : List Value) :
    checkMembers check i (v :: vs) =
      match check v, checkMembers check (i + 1) vs with
      | .ok w, .ok ws => .ok (w :: ws)
      | .ok _, .error issues => .error issues
      | .error issues, .ok _ => .error (issues.map (·.under (toString i)))
      | .error issues, .error more => .error (issues.map (·.under (toString i)) ++ more) := by
  rw [checkMembers]

theorem checkFields_cons (r : Record Value) :
    checkFields ((name, schema) :: rest) r =
      match schema.check ((r.lookup name).getD .undefined), checkFields rest r with
      | .ok v, .ok more => .ok (if v = .undefined ∧ !Record.holds r name then more else (name, v) :: more)
      | .ok _, .error issues => .error issues
      | .error issues, .ok _ => .error (issues.map (·.under name))
      | .error issues, .error more => .error (issues.map (·.under name) ++ more) := by
  rw [checkFields]

theorem checkVariants_cons (tag : Value) : checkVariants ((name, schema) :: rest) tag v =
    if tag = .text name then some (schema.check v) else checkVariants rest tag v := by
  rw [checkVariants]

end Unfolding

end Schema

end GovernedConfig
