/-! # Blank characters

The blanks are the white space and line ends of Unicode's separator class together with the
ASCII controls tab to carriage return and the byte order mark. Commands are split and numerals
are trimmed at them.
-/

namespace GovernedConfig.Text

def isBlank (c : Char) : Bool :=
  let n := c.toNat
  (9 ≤ n && n ≤ 13) || n == 0x20 || n == 0xA0 || n == 0x1680 || (0x2000 ≤ n && n ≤ 0x200A) ||
    n == 0x2028 || n == 0x2029 || n == 0x202F || n == 0x205F || n == 0x3000 || n == 0xFEFF

def dropBlanks (cs : List Char) : List Char := cs.dropWhile isBlank

def trim (cs : List Char) : List Char := (dropBlanks (dropBlanks cs).reverse).reverse

/-- The maximal runs of characters that are not blank. -/
def runs : List Char → List (List Char)
  | [] => []
  | c :: cs =>
    if isBlank c then runs cs
    else match cs, runs cs with
      | d :: _, run :: rest => if isBlank d then [c] :: run :: rest else (c :: run) :: rest
      | _, rest => [c] :: rest

theorem runs_cons (c : Char) (cs : List Char) : runs (c :: cs) =
    if isBlank c then runs cs
    else match cs, runs cs with
      | d :: _, run :: rest => if isBlank d then [c] :: run :: rest else (c :: run) :: rest
      | _, rest => [c] :: rest := rfl

theorem flatten_runs (cs : List Char) : (runs cs).flatten = cs.filter fun c => !isBlank c := by
  induction cs with
  | nil => rfl
  | cons c cs ih =>
    rw [runs_cons]
    split
    · rename_i h; simp [h, ih]
    · rename_i h
      split
      · rename_i hr
        rw [hr] at ih
        split <;> simp [h, ← ih]
      · simp [h, ← ih]

theorem runs_blank {c : Char} {cs : List Char} (h : isBlank c = true) : runs (c :: cs) = runs cs := by
  rw [runs_cons, if_pos h]

theorem runs_cons_blank {c blank : Char} {cs : List Char} (hc : isBlank c = false) (hb : isBlank blank = true) :
    runs (c :: blank :: cs) = [c] :: runs cs := by
  rw [runs_cons, if_neg (by simp [hc]), runs_blank hb]
  cases runs cs with
  | nil => rfl
  | cons run rest => exact if_pos hb

theorem runs_cons_run {c d : Char} {cs run : List Char} {rest : List (List Char)} (hc : isBlank c = false)
    (hd : isBlank d = false) (h : runs (d :: cs) = run :: rest) : runs (c :: d :: cs) = (c :: run) :: rest := by
  rw [runs_cons, if_neg (by simp [hc]), h]
  exact if_neg (by simp [hd])

theorem runs_append_blank {c blank : Char} {word rest : List Char} (hw : ∀ x ∈ c :: word, isBlank x = false)
    (hb : isBlank blank = true) : runs (c :: (word ++ blank :: rest)) = (c :: word) :: runs rest := by
  induction word generalizing c with
  | nil => exact runs_cons_blank (hw c List.mem_cons_self) hb
  | cons d word ih =>
    have hrest : runs (d :: (word ++ blank :: rest)) = (d :: word) :: runs rest :=
      ih fun x hx => hw x (List.mem_cons_of_mem _ hx)
    exact runs_cons_run (hw c (by simp)) (hw d (by simp)) hrest

def words (s : String) : List String := (runs s.toList).map String.ofList

end GovernedConfig.Text
