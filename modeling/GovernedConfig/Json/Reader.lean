import GovernedConfig.Number.Decimal
import GovernedConfig.Value.Basic

/-! # Reading JSON

The grammar is that of RFC 8259, no more: four blanks, no leading zeros, no control characters in
texts. Of two entries of one name the later value stands at the earlier position. A number too
large for the format reads as infinity.
-/

namespace GovernedConfig.Json

def isSpace (c : Char) : Bool := c == ' ' || c == '\t' || c == '\n' || c == '\r'

def skip (cs : List Char) : List Char := cs.dropWhile isSpace

def scanSign : List Char → Bool × List Char
  | '-' :: cs => (true, cs)
  | cs => (false, cs)

def scanNumber (cs : List Char) : Option (Binary64 × List Char) :=
  let (negative, cs) := scanSign cs
  let (whole, cs) := cs.span Char.isDigit
  if whole.isEmpty || (whole.length > 1 && whole.head? == some '0') then none
  else match cs with
    | '.' :: cs =>
      let (fraction, cs) := cs.span Char.isDigit
      if fraction.isEmpty then none
      else (Decimal.scanExponent cs).map fun (exponent, cs) =>
        ((Decimal.assemble negative whole fraction exponent).toBinary64, cs)
    | cs => (Decimal.scanExponent cs).map fun (exponent, cs) =>
        ((Decimal.assemble negative whole [] exponent).toBinary64, cs)

def hexValue? (c : Char) : Option Nat :=
  if c.isDigit then some (c.toNat - '0'.toNat)
  else if 'a' ≤ c ∧ c ≤ 'f' then some (c.toNat - 'a'.toNat + 10)
  else if 'A' ≤ c ∧ c ≤ 'F' then some (c.toNat - 'A'.toNat + 10)
  else none

def hexUnit? (a b c d : Char) : Option Nat := do
  pure (((← hexValue? a) * 16 + (← hexValue? b)) * 256 + ((← hexValue? c) * 16 + (← hexValue? d)))

def unescape? (c : Char) : Option Char :=
  if c = '"' ∨ c = '\\' ∨ c = '/' then some c
  else if c = 'n' then some '\n'
  else if c = 'r' then some '\r'
  else if c = 't' then some '\t'
  else if c = 'b' then some (Char.ofNat 8)
  else if c = 'f' then some (Char.ofNat 12)
  else none

/-- Takes the rest of a text up to its closing quotation mark. An escape may spell a half of a character. -/
def scanText : List Char → Option (List Char × List Char)
  | '"' :: cs => some ([], cs)
  | '\\' :: 'u' :: a :: b :: c :: d :: cs =>
    (hexUnit? a b c d).bind fun unit => (scanText cs).map fun (text, rest) => (Text.charOf unit :: text, rest)
  | '\\' :: e :: cs =>
    (unescape? e).bind fun c => (scanText cs).map fun (text, rest) => (c :: text, rest)
  | c :: cs =>
    if c.toNat < 32 then none
    else (scanText cs).map fun (text, rest) => (c :: text, rest)
  | [] => none

def scanWord (word : String) (v : Value) (cs : List Char) : Option (Value × List Char) :=
  if word.toList.isPrefixOf cs then some (v, cs.drop word.length) else none

mutual

/-- Takes a value from the front, nested at most `fuel` steps deep. -/
def scanValue : (fuel : Nat) → List Char → Option (Value × List Char)
  | 0, _ => none
  | fuel + 1, cs =>
    match skip cs with
    | [] => none
    | c :: cs =>
      if c = '"' then (scanText cs).map fun (text, rest) => (.text (String.ofList text), rest)
      else if c = '[' then
        match skip cs with
        | ']' :: rest => some (.list [], rest)
        | cs => (scanItems fuel cs).map fun (items, rest) => (.list items, rest)
      else if c = '\x7b' then
        match skip cs with
        | '\x7d' :: rest => some (.record [], rest)
        | cs => (scanEntries fuel cs).map fun (entries, rest) => (.record (Record.ofEntries entries), rest)
      else if c = 't' then scanWord "true" (.bool true) (c :: cs)
      else if c = 'f' then scanWord "false" (.bool false) (c :: cs)
      else if c = 'n' then scanWord "null" .null (c :: cs)
      else (scanNumber (c :: cs)).map fun (x, rest) => (.number x, rest)

def scanItems : (fuel : Nat) → List Char → Option (List Value × List Char)
  | 0, _ => none
  | fuel + 1, cs =>
    match scanValue fuel cs with
    | none => none
    | some (v, cs) =>
      match skip cs with
      | ',' :: cs => (scanItems fuel cs).map fun (vs, rest) => (v :: vs, rest)
      | ']' :: rest => some ([v], rest)
      | _ => none

def scanEntries : (fuel : Nat) → List Char → Option (List (String × Value) × List Char)
  | 0, _ => none
  | fuel + 1, cs =>
    match skip cs with
    | '"' :: cs =>
      match scanText cs with
      | none => none
      | some (text, cs) =>
        let name := String.ofList text
        match skip cs with
        | ':' :: cs =>
          match scanValue fuel cs with
          | none => none
          | some (v, cs) =>
            match skip cs with
            | ',' :: cs =>
              (scanEntries fuel cs).map fun (entries, rest) => ((name, v) :: entries, rest)
            | '\x7d' :: rest => some ([(name, v)], rest)
            | _ => none
        | _ => none
    | _ => none

end

/-- The value that a text denotes; none if it is not JSON. -/
def read? (s : String) : Option Value :=
  let cs := s.toList
  match scanValue (cs.length + 1) cs with
  | some (v, rest) => if (skip rest).isEmpty then some v else none
  | none => none

end GovernedConfig.Json
