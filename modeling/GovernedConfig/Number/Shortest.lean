import GovernedConfig.Number.Decimal

/-! # The shortest decimal form of a number

Of the decimals that read back as a number the printed one has the fewest digits and, among
those, lies nearest; a tie goes to the even last digit. It is written positionally from
`1e-6` up to but not including `1e21`, and with an exponent outside that range.
-/

namespace GovernedConfig.Binary64

/-- The magnitude at a finite place, exactly, as a coefficient over a power of ten. -/
def exactDecimal (place : Nat) : Nat × Nat :=
  let shared := Nat.gcd (units place) one
  let places := (one / shared).log2
  (units place / shared * Nat.pow 5 places, places)

/-- The decimal of at most `count` digits that reads back as the magnitude at `place`, whose
exact decimal is `exact / 10 ^ places` and has `length` digits. -/
def decimalOfLength (place exact places length count : Nat) : Option (Nat × Int) :=
  let dropped := length - count
  let exponent : Int := dropped - places
  let step := Nat.pow 10 dropped
  let low := exact / step
  let rest := exact % step
  let lowReads := Decimal.place low exponent == place
  let highReads := Decimal.place (low + 1) exponent == place
  if lowReads && (!highReads || 2 * rest < step || (2 * rest = step ∧ low % 2 = 0)) then
    some (low, exponent)
  else if highReads then some (low + 1, exponent)
  else none

/-- The printed decimal; seventeen digits always suffice, the exact decimal in any case. -/
def shortestDecimal (place : Nat) : Nat × Int :=
  let (exact, places) := exactDecimal place
  let length := (Nat.toDigits 10 exact).length
  ((List.range 17).findSome? fun n => decimalOfLength place exact places length (n + 1)).getD
    (exact, -(places : Int))

/-- The first and the last position of the decimal point that is written positionally. -/
def positional : Int × Int := (-5, 21)

/-- Writes `0.digits * 10 ^ point`. -/
def layOut (digits : List Char) (point : Int) : List Char :=
  if positional.1 ≤ point ∧ point ≤ positional.2 then
    if point ≤ 0 then '0' :: '.' :: List.replicate (-point).toNat '0' ++ digits
    else if digits.length ≤ point.toNat then
      digits ++ List.replicate (point.toNat - digits.length) '0'
    else digits.take point.toNat ++ '.' :: digits.drop point.toNat
  else
    let exponent := point - 1
    let tail := 'e' :: (if exponent < 0 then '-' else '+') :: Nat.toDigits 10 exponent.natAbs
    match digits with
    | [d] => d :: tail
    | [] => tail
    | d :: ds => d :: '.' :: ds ++ tail

def magnitudeText (place : Nat) : List Char :=
  if place = 0 then ['0']
  else
    let (coefficient, exponent) := shortestDecimal place
    let digits := Nat.toDigits 10 coefficient
    layOut (digits.reverse.dropWhile (· == '0')).reverse (exponent + digits.length)

/-- The text of a number; both zeros are written alike. -/
def text : Binary64 → String
  | .nan => "NaN"
  | .signed negative p =>
    let sign := if negative && p.val ≠ 0 then "-" else ""
    if p.val = top then sign ++ "Infinity" else sign ++ String.ofList (magnitudeText p)

end GovernedConfig.Binary64
