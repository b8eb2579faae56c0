import GovernedConfig.Value.Basic

/-! # Schemas

A schema is data: it says which values a payload may hold and what stands in for the absent ones.
-/

namespace GovernedConfig

inductive NumberRule where
  | integer
  | positive
  | nonnegative
  deriving DecidableEq

namespace NumberRule

def holds : NumberRule → Binary64 → Bool
  | integer, x => x.isInteger
  | positive, x => (0 : Binary64).less x
  | nonnegative, x => !x.less 0

end NumberRule

inductive Schema where
  /-- A text of at least so many units. -/
  | text (minimum : Nat)
  | number (rules : List NumberRule)
  /-- Any value, taken as the number that it reads as. -/
  | numeral (rules : List NumberRule)
  | flag
  | oneOf (options : List String)
  | exactly (option : String)
  | oneOfNumbers (options : List Binary64)
  /-- A record with any entries. -/
  | anyRecord
  | nullable (inner : Schema)
  | optional (inner : Schema)
  /-- The default stands in for an absent value. -/
  | withDefault (default : Value) (inner : Schema)
  | listOf (inner : Schema)
  /-- A record of the given entries; others are dropped. -/
  | fields (entries : List (String × Schema))
  /-- One of several records, told apart by the text of one entry. -/
  | tagged (tag : String) (variants : List (String × Schema))

end GovernedConfig
