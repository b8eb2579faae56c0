import GovernedConfig.Number.Numeral
import GovernedConfig.Number.Shortest
import GovernedConfig.Value.Basic

/-! # Values as text and as numbers, and their order

A list reads as its members joined by commas, a record as a fixed text; a record that holds the
name `toString` itself cannot be read at all. This is meant for values that can be copied: what a
callable under that name would answer is not described. Two texts are ordered by their units, any
other two values as numbers.
-/

namespace GovernedConfig.Value

mutual

/-- The text of a value; none if it cannot be read as one. -/
def toText? : Value → Option String
  | undefined => some "undefined"
  | null => some "null"
  | bool b => some (if b then "true" else "false")
  | number x => some x.text
  | bigint i => some (toString i)
  | text s => some s
  | callable c => some c.text
  | list items => (memberTexts? items).map (",".intercalate ·)
  | record entries => if Record.holds entries "toString" then none else some "[object Object]"

/-- The texts of the members of a list, `undefined` and `null` being empty. -/
def memberTexts? : List Value → Option (List String)
  | [] => some []
  | v :: vs =>
    match if v.isPresent then v.toText? else some "", memberTexts? vs with
    | some s, some rest => some (s :: rest)
    | _, _ => none

end

def primitive? : Value → Option Value
  | list items => (toText? (list items)).map text
  | record entries => (toText? (record entries)).map text
  | callable c => some (text c.text)
  | v => some v

def numberOf : Value → Binary64
  | null => 0
  | bool b => if b then 1 else 0
  | number x => x
  | bigint i => .ofInt i
  | text s => Numeral.read s
  | _ => .nan

def toNumber? (v : Value) : Option Binary64 := v.primitive?.map numberOf

/-- The number of a value in arithmetic with numbers, where integers of unbounded size do not go. -/
def toOperand? : Value → Option Binary64
  | bigint _ => none
  | v => v.toNumber?

/-- What a value answers to its length less one, as a name: a list its last member. None if it cannot
be asked. -/
def last? : Value → Option Value
  | list items => some (items.getLast?.getD undefined)
  | v => do
    let size ← (← v.member? "length").toOperand?
    v.member? (size.add (.ofInt (-1))).text

def lessPrimitive : Value → Value → Bool
  | text s, text t => Text.less s t
  | bigint i, text t => (Numeral.readInteger? t).any fun j => decide (i < j)
  | text s, bigint j => (Numeral.readInteger? s).any fun i => decide (i < j)
  | bigint i, bigint j => decide (i < j)
  | bigint i, w => Binary64.intLess i w.numberOf
  | v, bigint j => Binary64.lessInt v.numberOf j
  | v, w => v.numberOf.less w.numberOf

def less? (v w : Value) : Option Bool :=
  match v.primitive?, w.primitive? with
  | some p, some q => some (lessPrimitive p q)
  | _, _ => none

/-- The sum of two values: texts are joined, integers of unbounded size only meet their like. -/
def plus? (v w : Value) : Option Value :=
  match v.primitive?, w.primitive? with
  | some p, some q =>
    match p, q with
    | text s, q => q.toText?.map fun t => text (s ++ t)
    | p, text t => p.toText?.map fun s => text (s ++ t)
    | bigint i, bigint j => some (bigint (i + j))
    | bigint _, _ => none
    | _, bigint _ => none
    | p, q => some (number (p.numberOf.add q.numberOf))
  | _, _ => none

end GovernedConfig.Value
