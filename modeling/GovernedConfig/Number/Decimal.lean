import GovernedConfig.Number.Binary64

/-! # Decimal numerals

A decimal is a signed coefficient times a power of ten. Scanning takes one from the front of a
text; its binary64 value is the nearest one, found without ever building a power of ten far
outside the range of the format.
-/

namespace GovernedConfig

structure Decimal where
  negative : Bool
  coefficient : Nat
  exponent : Int

namespace Decimal

/-- The place nearest to `coefficient * 10 ^ exponent`. -/
def place (coefficient : Nat) (exponent : Int) : Nat :=
  if coefficient = 0 then 0
  else if exponent > 400 then Binary64.top
  else if exponent + coefficient.log2 < -400 then 0
  else match exponent with
    | .ofNat e => Binary64.nearest (coefficient * Nat.pow 10 e) 1
    | .negSucc e => Binary64.nearest coefficient (Nat.pow 10 (e + 1))

theorem place_le_top (c : Nat) (e : Int) : place c e ≤ Binary64.top := by
  unfold place
  split
  · exact Nat.zero_le _
  split
  · exact Nat.le_refl _
  split
  · exact Nat.zero_le _
  split <;> exact Binary64.nearest_le_top _ _

def toBinary64 (d : Decimal) : Binary64 :=
  .signed d.negative ⟨place d.coefficient d.exponent, Nat.lt_succ_of_le (place_le_top _ _)⟩

/-- The number that a row of digits denotes in the given base. -/
def valueOf (base : Nat) (digits : List Char) : Nat :=
  digits.foldl (fun n c => n * base + digit c) 0
where
  digit (c : Char) : Nat :=
    if c.isDigit then c.toNat - '0'.toNat
    else if c.isLower then c.toNat - 'a'.toNat + 10
    else c.toNat - 'A'.toNat + 10

/-- Takes an exponent part, if there is one; a mark without digits behind it is refused. -/
def scanExponent : List Char → Option (Int × List Char)
  | [] => some (0, [])
  | c :: cs =>
    if c = 'e' ∨ c = 'E' then
      let (negative, cs) := match cs with
        | '-' :: cs => (true, cs)
        | '+' :: cs => (false, cs)
        | cs => (false, cs)
      let (digits, rest) := cs.span Char.isDigit
      if digits.isEmpty then none
      else some (if negative then -(valueOf 10 digits) else valueOf 10 digits, rest)
    else some (0, c :: cs)

/-- Puts the digits before and behind the point and the exponent part together. -/
def assemble (negative : Bool) (whole fraction : List Char) (exponent : Int) : Decimal :=
  ⟨negative, valueOf 10 (whole ++ fraction), exponent - fraction.length⟩

end Decimal

end GovernedConfig
