import GovernedConfig.Number.Decimal
import GovernedConfig.Text.Blank

/-! # Numerals

A numeral is trimmed of blanks; the empty one is zero. It is a decimal with an optional sign,
`Infinity` with an optional sign, or a binary, octal or hexadecimal whole number without one.
Any other text is not a number.
-/

namespace GovernedConfig.Numeral

def isDigitOf (base : Nat) (c : Char) : Bool :=
  if base = 2 then c == '0' || c == '1'
  else if base = 8 then '0' ≤ c && c ≤ '7'
  else if base = 10 then c.isDigit
  else c.isDigit || ('a' ≤ c && c ≤ 'f') || ('A' ≤ c && c ≤ 'F')

/-- The whole number written with a base mark, such as `0x1f`. -/
def marked? : List Char → Option Nat
  | '0' :: mark :: digits =>
    let base? := match mark with
      | 'x' | 'X' => some 16
      | 'o' | 'O' => some 8
      | 'b' | 'B' => some 2
      | _ => none
    base?.bind fun base =>
      if !digits.isEmpty && digits.all (isDigitOf base) then some (Decimal.valueOf base digits) else none
  | _ => none

def signed : List Char → Bool × List Char
  | '-' :: cs => (true, cs)
  | '+' :: cs => (false, cs)
  | cs => (false, cs)

/-- An unsigned decimal: digits on at least one side of the point, then perhaps an exponent. -/
def decimal? (negative : Bool) (cs : List Char) : Option Decimal :=
  let (whole, rest) := cs.span Char.isDigit
  let (fraction, rest) := match rest with
    | '.' :: rest => rest.span Char.isDigit
    | rest => ([], rest)
  if whole.isEmpty && fraction.isEmpty then none
  else match Decimal.scanExponent rest with
    | some (exponent, []) => some (.assemble negative whole fraction exponent)
    | _ => none

def read (s : String) : Binary64 :=
  let cs := Text.trim s.toList
  if cs.isEmpty then 0
  else match marked? cs with
    | some n => .ofNat n
    | none =>
      let (negative, body) := signed cs
      if body = "Infinity".toList then .infinity negative
      else match decimal? negative body with
        | some d => d.toBinary64
        | none => .nan

/-- The whole number that a numeral without point and exponent denotes. -/
def readInteger? (s : String) : Option Int :=
  let cs := Text.trim s.toList
  if cs.isEmpty then some 0
  else match marked? cs with
    | some n => some n
    | none =>
      let (negative, digits) := signed cs
      if !digits.isEmpty && digits.all Char.isDigit then
        some (if negative then -(Decimal.valueOf 10 digits) else Decimal.valueOf 10 digits)
      else none

end GovernedConfig.Numeral
