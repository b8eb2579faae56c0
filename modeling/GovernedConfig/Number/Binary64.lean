/-! # Binary64 numbers

A number is either not a number or a sign and a place: the position of its magnitude in the
increasing list of all magnitudes of the format, zero first and infinity last. Comparing
magnitudes is comparing places, and a rounded significand that overflows runs into the next
binade by itself. Every finite magnitude is a whole number of units of `2 ^ -1074`.
-/

namespace GovernedConfig

namespace Binary64

/-- The number of places in a binade. -/
def binade : Nat := Nat.pow 2 52

/-- The place of infinity. -/
def top : Nat := 2047 * binade

/-- The number of units in one. -/
@[irreducible] def one : Nat := Nat.pow 2 1074

/-- The units held by the magnitude at a finite place. -/
def units (place : Nat) : Nat :=
  (if place < binade then place else binade + place % binade) * Nat.pow 2 (place / binade - 1)

/-- The nearest whole number to `num / den`, a tie going to the even one. -/
def roundQuotient (num den : Nat) : Nat :=
  let q := num / den
  let r := num % den
  if 2 * r > den ∨ (2 * r = den ∧ q % 2 = 1) then q + 1 else q

/-- The place nearest to the magnitude `num / den`, a tie going to the even place. -/
def nearest (num den : Nat) : Nat :=
  let shift := (num * one / den).log2 - 52
  min (shift * binade + roundQuotient (num * one) (den * Nat.pow 2 shift)) top

theorem nearest_le_top (num den : Nat) : nearest num den ≤ top := Nat.min_le_right _ _

end Binary64

/-- A number of the IEEE 754 binary64 format. -/
inductive Binary64 where
  | nan
  | signed (negative : Bool) (place : Fin (Binary64.top + 1))
  deriving DecidableEq

namespace Binary64

/-- The number nearest to the signed ratio `num / den`. -/
def ofRatio (negative : Bool) (num den : Nat) : Binary64 :=
  .signed negative ⟨nearest num den, Nat.lt_succ_of_le (nearest_le_top num den)⟩

def ofNat (n : Nat) : Binary64 := ofRatio false n 1

def ofInt (i : Int) : Binary64 := ofRatio (decide (i < 0)) i.natAbs 1

instance (n : Nat) : OfNat Binary64 n := ⟨ofNat n⟩

def zero (negative : Bool) : Binary64 := .signed negative ⟨0, Nat.succ_pos top⟩

instance : Inhabited Binary64 := ⟨zero false⟩

def infinity (negative : Bool) : Binary64 := .signed negative (Fin.last top)

def isNan : Binary64 → Bool
  | .nan => true
  | .signed .. => false

def isFinite : Binary64 → Bool
  | .nan => false
  | .signed _ p => p.val < top

/-- Neither zero counts, nor does `nan`. -/
def isNonzero : Binary64 → Bool
  | .nan => false
  | .signed _ p => p.val ≠ 0

/-- The exact value in units. -/
def signedUnits : Binary64 → Int
  | .nan => 0
  | .signed false p => units p
  | .signed true p => -units p

def isInteger (x : Binary64) : Bool := x.isFinite && x.signedUnits % one == 0

/-- The integer between the number and zero that is nearest to it; none outside the finite numbers. -/
def truncate? (x : Binary64) : Option Int :=
  if x.isFinite then some (x.signedUnits.tdiv one) else none

end Binary64

end GovernedConfig
