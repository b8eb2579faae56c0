import GovernedConfig.Number.Binary64

/-! # Order and arithmetic of binary64 numbers

Comparison goes through one integer per number, its rank, in which the two zeros agree.
Each operation computes its exact result in units and rounds once.
-/

namespace GovernedConfig.Binary64

/-- Orders all numbers but `nan`; both zeros have rank 0. -/
def rank : Binary64 → Int
  | .nan => 0
  | .signed false p => p.val
  | .signed true p => -p.val

/-- Numeric equality: `nan` equals nothing, the zeros equal each other. -/
def equals (x y : Binary64) : Bool := !x.isNan && !y.isNan && x.rank == y.rank

def less (x y : Binary64) : Bool := !x.isNan && !y.isNan && decide (x.rank < y.rank)

/-- Equality that tells no two zeros apart and lets `nan` equal itself. -/
def sameValueZero (x y : Binary64) : Bool := (x.isNan && y.isNan) || x.equals y

/-- Compares with an integer exactly, without rounding it. -/
def lessInt (x : Binary64) (i : Int) : Bool :=
  match x with
  | .nan => false
  | .signed negative p => if p.val = top then negative else decide (x.signedUnits < i * one)

def intLess (i : Int) (x : Binary64) : Bool :=
  match x with
  | .nan => false
  | .signed negative p => if p.val = top then !negative else decide (i * one < x.signedUnits)

def equalsInt (x : Binary64) (i : Int) : Bool := x.isFinite && x.signedUnits == i * one

/-- Orders all numbers but `nan`, the negative zero before the positive one. -/
def position : Binary64 → Int
  | .nan => 0
  | .signed false p => p.val
  | .signed true p => -p.val - 1

def max (x y : Binary64) : Binary64 :=
  if x.isNan || y.isNan then .nan else if x.position < y.position then y else x

def min (x y : Binary64) : Binary64 :=
  if x.isNan || y.isNan then .nan else if y.position < x.position then y else x

/-- A zero result of two numbers of one sign keeps that sign. -/
def add : Binary64 → Binary64 → Binary64
  | .nan, _ => .nan
  | _, .nan => .nan
  | .signed s p, .signed t q =>
    if p.val = top then (if q.val = top ∧ s ≠ t then .nan else .signed s p)
    else if q.val = top then .signed t q
    else
      let sum := signedUnits (.signed s p) + signedUnits (.signed t q)
      ofRatio (if sum = 0 then s && t else decide (sum < 0)) sum.natAbs one

def mul : Binary64 → Binary64 → Binary64
  | .nan, _ => .nan
  | _, .nan => .nan
  | .signed s p, .signed t q =>
    if p.val = top ∨ q.val = top then
      if p.val = 0 ∨ q.val = 0 then .nan else infinity (s ^^ t)
    else ofRatio (s ^^ t) (units p * units q) (one * one)

def div : Binary64 → Binary64 → Binary64
  | .nan, _ => .nan
  | _, .nan => .nan
  | .signed s p, .signed t q =>
    if p.val = top then (if q.val = top then .nan else infinity (s ^^ t))
    else if q.val = top then zero (s ^^ t)
    else if q.val = 0 then (if p.val = 0 then .nan else infinity (s ^^ t))
    else ofRatio (s ^^ t) (units p) (units q)

/-- The largest integer not above the number; a zero keeps its sign. -/
def floor (x : Binary64) : Binary64 :=
  match x with
  | .nan => .nan
  | .signed negative p =>
    if p.val = top then x
    else ofRatio negative (x.signedUnits.fdiv one).natAbs 1

end GovernedConfig.Binary64
