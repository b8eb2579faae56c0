import GovernedConfig.Number.Arithmetic

/-! # Calendar

Time stamps of the journal: a clock reading in milliseconds since 1970 as a date and time of the
proleptic Gregorian calendar in UTC. Years outside `0 … 9999` have a sign and six digits.
-/

namespace GovernedConfig.Calendar

structure Date where
  year : Int
  month : Nat
  day : Nat

/-- The date of a day counted from 1970-01-01, by eras of four hundred years that start in March. -/
def Date.ofDays (days : Int) : Date :=
  let shifted := days + 719468
  let era := shifted.fdiv 146097
  let dayOfEra := (shifted - era * 146097).toNat
  let yearOfEra := (dayOfEra - dayOfEra / 1460 + dayOfEra / 36524 - dayOfEra / 146096) / 365
  let dayOfYear := dayOfEra - (365 * yearOfEra + yearOfEra / 4 - yearOfEra / 100)
  let shiftedMonth := (5 * dayOfYear + 2) / 153
  let month := if shiftedMonth < 10 then shiftedMonth + 3 else shiftedMonth - 9
  ⟨yearOfEra + era * 400 + (if month ≤ 2 then 1 else 0), month, dayOfYear - (153 * shiftedMonth + 2) / 5 + 1⟩

def padded (width n : Nat) : String :=
  let digits := toString n
  String.ofList (List.replicate (width - digits.length) '0') ++ digits

def yearText (year : Int) : String :=
  if 0 ≤ year ∧ year ≤ 9999 then padded 4 year.toNat
  else (if year < 0 then "-" else "+") ++ padded 6 year.natAbs

/-- The readings that have a date: a hundred million days to either side of the epoch. -/
def limit : Int := 8640000000000000

def stampOf (milliseconds : Int) : String :=
  let days := milliseconds.fdiv 86400000
  let rest := (milliseconds - days * 86400000).toNat
  let date := Date.ofDays days
  yearText date.year ++ "-" ++ padded 2 date.month ++ "-" ++ padded 2 date.day ++ "T" ++
    padded 2 (rest / 3600000) ++ ":" ++ padded 2 (rest / 60000 % 60) ++ ":" ++
    padded 2 (rest / 1000 % 60) ++ "." ++ padded 3 (rest % 1000) ++ "Z"

/-- The stamp of a clock reading; none if it has no date. -/
def stamp? (reading : Binary64) : Option String :=
  reading.truncate?.bind fun ms => if -limit ≤ ms ∧ ms ≤ limit then some (stampOf ms) else none

def epochSeconds (reading : Binary64) : Binary64 := (reading.div 1000).floor

end GovernedConfig.Calendar
