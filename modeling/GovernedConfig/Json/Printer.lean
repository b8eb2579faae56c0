import GovernedConfig.Number.Shortest
import GovernedConfig.Value.Basic

/-! # Printing values as JSON

`undefined` and callables have no JSON form: as members of a list they are printed as `null`, as
entries of a record they are left out. Numbers that are not finite are `null`. Integers of
unbounded size cannot be printed at all, wherever they stand. A callable under `toJSON`, which would
be called for the form of the value that holds it, is left out like any other: a value that holds
one cannot be copied, and its form is not described.
-/

namespace GovernedConfig.Json

def hex4 (n : Nat) : List Char :=
  [Nat.digitChar (n / 4096 % 16), Nat.digitChar (n / 256 % 16), Nat.digitChar (n / 16 % 16),
    Nat.digitChar (n % 16)]

def escape (c : Char) : List Char :=
  if c = '"' then ['\\', '"']
  else if c = '\\' then ['\\', '\\']
  else if c = '\n' then ['\\', 'n']
  else if c = '\r' then ['\\', 'r']
  else if c = '\t' then ['\\', 't']
  else if c.toNat = 8 then ['\\', 'b']
  else if c.toNat = 12 then ['\\', 'f']
  else if c.toNat < 32 then '\\' :: 'u' :: hex4 c.toNat
  else if Text.isStandIn c then '\\' :: 'u' :: hex4 (c.toNat - Text.standInOffset)
  else [c]

/-- Escapes a text; halves that stand alone are escaped, two that belong together are not. -/
def escapeAll : List Char → List Char
  | c :: d :: cs =>
    if Text.isHighHalf c && Text.isLowHalf d then c :: d :: escapeAll cs else escape c ++ escapeAll (d :: cs)
  | [c] => escape c
  | [] => []

def quote (s : String) : List Char := '"' :: escapeAll s.toList ++ ['"']

def hasForm : Value → Bool
  | .undefined => false
  | .callable _ => false
  | _ => true

def number (x : Binary64) : List Char := if x.isFinite then x.text.toList else "null".toList

def commas : List (List Char) → List Char
  | [] => []
  | [part] => part
  | part :: parts => part ++ ',' :: commas parts

mutual

/-- The JSON characters of a value that holds no integer of unbounded size. -/
def characters : Value → List Char
  | .undefined => "null".toList
  | .null => "null".toList
  | .bool b => if b then "true".toList else "false".toList
  | .number x => number x
  | .bigint _ => "null".toList
  | .text s => quote s
  | .callable _ => "null".toList
  | .list items => '[' :: commas (memberCharacters items) ++ [']']
  | .record entries => '\x7b' :: commas (entryCharacters entries) ++ ['\x7d']

def memberCharacters : List Value → List (List Char)
  | [] => []
  | v :: vs => characters v :: memberCharacters vs

def entryCharacters : List (String × Value) → List (List Char)
  | [] => []
  | (name, v) :: rest =>
    if hasForm v then (quote name ++ ':' :: characters v) :: entryCharacters rest
    else entryCharacters rest

end

mutual

def holdsBigint : Value → Bool
  | .bigint _ => true
  | .list items => anyBigint items
  | .record entries => entriesHoldBigint entries
  | _ => false

def anyBigint : List Value → Bool
  | [] => false
  | v :: vs => holdsBigint v || anyBigint vs

def entriesHoldBigint : List (String × Value) → Bool
  | [] => false
  | (_, v) :: rest => holdsBigint v || entriesHoldBigint rest

end

/-- The JSON text of a value, `undefined` having the text of its name; none if it holds an integer
of unbounded size. -/
def print? (v : Value) : Option String :=
  if holdsBigint v then none
  else if hasForm v then some (String.ofList (characters v)) else some "undefined"

end GovernedConfig.Json
