/-! # Sixteen-bit units of a text

Texts are sequences of UTF-16 units: lengths are counted in them and texts are ordered by them. A
character outside the basic plane takes two units, a high half and a low half, and a half may also
stand alone. A half is held by a stand-in, one of the last characters of the last plane. Texts from
outside are held unit by unit, so two texts of the same units are the same, however they came to be:
a text that ends in a high half and one that begins with a low half join into a character.
-/

namespace GovernedConfig.Text

/-- The first half of a character outside the basic plane. -/
def isHigh (n : Nat) : Bool := decide (0xD800 ≤ n ∧ n < 0xDC00)

def isLow (n : Nat) : Bool := decide (0xDC00 ≤ n ∧ n < 0xE000)

/-- The distance from the halves to their stand-ins. -/
def standInOffset : Nat := 0x102000

def isStandIn (c : Char) : Bool := decide (0x10F800 ≤ c.toNat)

def halvesOf (n : Nat) : List Nat := [0xD800 + (n - 0x10000) / 0x400, 0xDC00 + (n - 0x10000) % 0x400]

def unitsOf (c : Char) : List Nat :=
  let n := c.toNat
  if n < 0x10000 then [n]
  else if isStandIn c then [n - standInOffset]
  else halvesOf n

def units (s : String) : List Nat := s.toList.flatMap unitsOf

def length (s : String) : Nat := (units s).length

/-- The character of a unit; a half has its stand-in. -/
def charOf (n : Nat) : Char := Char.ofNat (if isHigh n || isLow n then n + standInOffset else n)

/-- Whether a character stands in for a high half, and whether for a low one. -/
def isHighHalf (c : Char) : Bool := isStandIn c && isHigh (c.toNat - standInOffset)

def isLowHalf (c : Char) : Bool := isStandIn c && isLow (c.toNat - standInOffset)

def ofUnits (ns : List Nat) : List Char := ns.map charOf

theorem toNat_ofNat {n : Nat} (h : n < 0xD800 ∨ 0xDFFF < n ∧ n < 0x110000) : (Char.ofNat n).toNat = n := by
  rw [Char.ofNat, dif_pos h]
  rfl

theorem unitsOf_charOf {n : Nat} (h : n < 0x10000) : unitsOf (charOf n) = [n] := by
  unfold charOf
  by_cases hn : (isHigh n || isLow n) = true
  · have hh : 0xD800 ≤ n ∧ n < 0xE000 := by
      simp only [isHigh, isLow, Bool.or_eq_true, decide_eq_true_eq] at hn
      omega
    have hc : (Char.ofNat (n + standInOffset)).toNat = n + 0x102000 :=
      toNat_ofNat (by unfold standInOffset; omega)
    rw [if_pos hn, unitsOf, hc, if_neg (by omega), isStandIn, hc, if_pos (decide_eq_true (by omega)),
      standInOffset, Nat.add_sub_cancel]
  · have hh : n < 0xD800 ∨ 0xDFFF < n ∧ n < 0x110000 := by
      simp only [isHigh, isLow, Bool.or_eq_true, decide_eq_true_eq] at hn
      omega
    rw [if_neg hn, unitsOf, toNat_ofNat hh, if_pos h]

theorem units_ofUnits {ns : List Nat} (h : ∀ n ∈ ns, n < 0x10000) :
    units (String.ofList (ofUnits ns)) = ns := by
  rw [units, String.toList_ofList, ofUnits]
  induction ns with
  | nil => rfl
  | cons n ns ih =>
    rw [List.map_cons, List.flatMap_cons, unitsOf_charOf (h n (by simp)), ih fun m hm => h m (by simp [hm])]
    rfl

def isUnit (c : Char) : Bool := decide (c.toNat < 0x10000) || isStandIn c

theorem ofUnits_unitsOf {c : Char} (h : isUnit c = true) : ofUnits (unitsOf c) = [c] := by
  have hv : c.toNat < 0xD800 ∨ 0xDFFF < c.toNat ∧ c.toNat < 0x110000 := c.valid
  simp only [isUnit, isStandIn, Bool.or_eq_true, decide_eq_true_eq] at h
  by_cases hn : c.toNat < 0x10000
  · have hf : ¬(isHigh c.toNat || isLow c.toNat) = true := by
      simp only [isHigh, isLow, Bool.or_eq_true, decide_eq_true_eq]
      omega
    rw [unitsOf, if_pos hn, ofUnits, List.map_singleton, charOf, if_neg hf, Char.ofNat_toNat]
  · have hs : 0x10F800 ≤ c.toNat := h.resolve_left hn
    have hf : (isHigh (c.toNat - standInOffset) || isLow (c.toNat - standInOffset)) = true := by
      unfold standInOffset
      by_cases hh : c.toNat - 0x102000 < 0xDC00
      · rw [isHigh, decide_eq_true (by omega), Bool.true_or]
      · rw [isLow, decide_eq_true (by omega), Bool.or_true]
    have ho : c.toNat - standInOffset + standInOffset = c.toNat := Nat.sub_add_cancel (by unfold standInOffset; omega)
    rw [unitsOf, if_neg hn, isStandIn, if_pos (decide_eq_true hs), ofUnits, List.map_singleton, charOf, if_pos hf,
      ho, Char.ofNat_toNat]

theorem ofUnits_units {s : String} (h : ∀ c ∈ s.toList, isUnit c = true) : ofUnits (units s) = s.toList := by
  unfold units
  generalize s.toList = cs at h
  induction cs with
  | nil => rfl
  | cons c cs ih =>
    rw [List.flatMap_cons, ofUnits, List.map_append, ← ofUnits, ← ofUnits, ofUnits_unitsOf (h c (by simp)),
      ih fun d hd => h d (by simp [hd])]
    rfl

theorem units_append (s t : String) : units (s ++ t) = units s ++ units t := by
  rw [units, units, units, String.toList_append, List.flatMap_append]

def unit? (s : String) (i : Nat) : Option String := ((units s)[i]?).map fun n => String.ofList [charOf n]

/-- The characters as texts; two halves that belong together go together. -/
def points : List Char → List String
  | c :: d :: cs =>
    if isHighHalf c && isLowHalf d then String.ofList [c, d] :: points cs
    else c.toString :: points (d :: cs)
  | [c] => [c.toString]
  | [] => []

/-- The characters without the halves that stand alone, each of which is replaced. -/
def replaceLone : List Char → List Char
  | c :: d :: cs =>
    if isHighHalf c && isLowHalf d then c :: d :: replaceLone cs
    else (if isStandIn c then '\ufffd' else c) :: replaceLone (d :: cs)
  | [c] => [if isStandIn c then '\ufffd' else c]
  | [] => []

/-- The text of characters from outside, none of which stands in for a half; it is held unit by unit. -/
def ofCharacters (cs : List Char) : String :=
  String.ofList (cs.flatMap fun c => if c.toNat < 0x10000 then [c] else ofUnits (halvesOf c.toNat))

def less (s t : String) : Bool := decide (units s < units t)

end GovernedConfig.Text
