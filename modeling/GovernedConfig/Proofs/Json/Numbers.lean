import GovernedConfig.Json.Printer
import GovernedConfig.Json.Reader
import GovernedConfig.Proofs.Number.Decimals
import GovernedConfig.Proofs.Number.Digits

/-! # Numbers in JSON

Each finite number is read back from its text, except that a negative zero loses its sign.
-/

namespace GovernedConfig

namespace Json

/-- What may stand behind a number: nothing that would be taken for a part of it. -/
def Ends (rest : List Char) : Prop :=
  ∀ c ∈ rest.head?, c.isDigit = false ∧ c ≠ '.' ∧ c ≠ 'e' ∧ c ≠ 'E'

variable {rest : List Char}

theorem Ends.no_digit (h : Ends rest) : ∀ c ∈ rest.head?, c.isDigit = false := fun c hc => (h c hc).1

theorem scanExponent_of_ends (h : Ends rest) : Decimal.scanExponent rest = some (0, rest) := by
  cases rest with
  | nil => rfl
  | cons c rest =>
    obtain ⟨-, -, he, hE⟩ := h c rfl
    unfold Decimal.scanExponent
    dsimp only
    rw [if_neg (by simp [he, hE])]

theorem scanExponent_mark {ds : List Char} (negative : Bool) (hd : IsDigits ds) (hne : ds ≠ []) (h : Ends rest) :
    Decimal.scanExponent ('e' :: (if negative then '-' else '+') :: (ds ++ rest)) =
      some (if negative then -(Decimal.valueOf 10 ds : Int) else Decimal.valueOf 10 ds, rest) := by
  have hspan := span_digits hd h.no_digit
  have hempty : ds.isEmpty = false := by simpa using hne
  cases negative with
  | false =>
    unfold Decimal.scanExponent
    simp only [true_or, if_true, Bool.false_eq_true, if_false, hspan, hempty]
  | true =>
    unfold Decimal.scanExponent
    simp only [true_or, if_true, hspan, hempty, Bool.false_eq_true, if_false]

def signOf (negative : Bool) : List Char := if negative then ['-'] else []

def pointed (fraction : List Char) : List Char := if fraction.isEmpty then [] else '.' :: fraction

/-- The scanner takes a number apart as it was put together. -/
theorem scanNumber_eq {whole fraction tail : List Char} {exponent : Int} (negative : Bool)
    (hw : IsDigits whole) (hne : whole ≠ []) (hz : whole.length = 1 ∨ whole.head? ≠ some '0')
    (hf : IsDigits fraction) (hd : ∀ c ∈ tail.head?, c.isDigit = false ∧ c ≠ '.')
    (ht : Decimal.scanExponent tail = some (exponent, rest)) :
    scanNumber (signOf negative ++ (whole ++ (pointed fraction ++ tail))) =
      some ((Decimal.assemble negative whole fraction exponent).toBinary64, rest) := by
  have hdigit : ∀ c ∈ tail.head?, c.isDigit = false := fun c hc => (hd c hc).1
  have hsign : scanSign (signOf negative ++ (whole ++ (pointed fraction ++ tail))) =
      (negative, whole ++ (pointed fraction ++ tail)) := by
    cases negative with
    | true => rfl
    | false =>
      obtain ⟨d, ds, rfl⟩ := List.exists_cons_of_ne_nil hne
      have hm : d ≠ '-' := by
        rintro rfl
        exact absurd (hw '-' (by simp)) (by decide)
      simp [signOf, scanSign, hm]
  have hbehind : ∀ c ∈ (pointed fraction ++ tail).head?, c.isDigit = false := by
    unfold pointed
    split
    · exact hdigit
    · simp
  have hspan : (whole ++ (pointed fraction ++ tail)).span Char.isDigit = (whole, pointed fraction ++ tail) :=
    span_digits hw hbehind
  have hzero : (whole.isEmpty || (decide (whole.length > 1) && whole.head? == some '0')) = false := by
    have hempty : whole.isEmpty = false := by simpa using hne
    rcases hz with h | h
    · simp [hempty, h]
    · simp [hempty, h]
  unfold scanNumber
  rw [hsign]
  dsimp only
  rw [hspan]
  dsimp only
  rw [hzero, if_neg (by decide)]
  unfold pointed
  by_cases hfraction : fraction = []
  · subst hfraction
    rw [List.isEmpty_nil, if_pos rfl, List.nil_append]
    split
    · rename_i cs
      exact absurd rfl (hd '.' rfl).2
    · rw [ht]
      rfl
  · have hempty : fraction.isEmpty = false := by simpa using hfraction
    simp only [hempty, Bool.false_eq_true, if_false, List.cons_append, span_digits hf hdigit, ht, Option.map_some]

section Layout

variable {digits : List Char} {point : Int} {p : Fin (Binary64.top + 1)}

theorem toBinary64_eq {d : Decimal} (h : Decimal.place d.coefficient d.exponent = p.val) :
    d.toBinary64 = .signed d.negative p := by
  unfold Decimal.toBinary64
  congr

/-- Digits that are taken apart around a point are read as the number they denote. -/
theorem scanNumber_of_split {whole fraction tail : List Char} {exponent : Int} (negative : Bool)
    (hw : IsDigits whole) (hne : whole ≠ []) (hz : whole.length = 1 ∨ whole.head? ≠ some '0')
    (hf : IsDigits fraction) (hd : ∀ c ∈ tail.head?, c.isDigit = false ∧ c ≠ '.')
    (ht : Decimal.scanExponent tail = some (exponent, rest))
    (hp : Decimal.place (Decimal.valueOf 10 (whole ++ fraction)) (exponent - fraction.length) = p.val) :
    scanNumber (signOf negative ++ (whole ++ (pointed fraction ++ tail))) = some (.signed negative p, rest) := by
  rw [scanNumber_eq negative hw hne hz hf hd ht]
  congr
  exact toBinary64_eq hp

theorem ends_of_tail (hr : Ends rest) : ∀ c ∈ rest.head?, c.isDigit = false ∧ c ≠ '.' :=
  fun c hc => ⟨(hr c hc).1, (hr c hc).2.1⟩

theorem scanNumber_behind_zeros (negative : Bool) (hd : IsDigits digits) (hne : digits ≠ [])
    (hp : Decimal.place (Decimal.valueOf 10 digits) (point - digits.length) = p.val) (hr : Ends rest)
    (hpoint : point ≤ 0) :
    scanNumber (signOf negative ++ ('0' :: '.' :: List.replicate (-point).toNat '0' ++ digits ++ rest)) =
      some (.signed negative p, rest) := by
  have hfraction : IsDigits (List.replicate (-point).toNat '0' ++ digits) := (isDigits_zeros _).append hd
  have hsplit := scanNumber_of_split (p := p) negative (isDigits_zeros 1) (by simp) (.inl rfl) hfraction
    (ends_of_tail hr) (scanExponent_of_ends hr) (by
      rw [← List.append_assoc, List.replicate_append_replicate, Decimal.valueOf_zeros_append _ hd, List.length_append,
        List.length_replicate]
      have he : (0 : Int) - ((-point).toNat + digits.length : Nat) = point - digits.length := by omega
      rw [he]
      exact hp)
  have hpointed : pointed (List.replicate (-point).toNat '0' ++ digits) =
      '.' :: (List.replicate (-point).toNat '0' ++ digits) := by
    simp [pointed, hne]
  rw [hpointed] at hsplit
  simpa using hsplit

theorem scanNumber_before_zeros (negative : Bool) (hd : IsDigits digits) (hne : digits ≠ [])
    (h₀ : digits.head? ≠ some '0') (hv : Decimal.valueOf 10 digits ≠ 0)
    (hp : Decimal.place (Decimal.valueOf 10 digits) (point - digits.length) = p.val) (hr : Ends rest)
    (hpoint : ¬ point ≤ 0) (hle : digits.length ≤ point.toNat) :
    scanNumber (signOf negative ++ (digits ++ List.replicate (point.toNat - digits.length) '0' ++ rest)) =
      some (.signed negative p, rest) := by
  have hwhole : IsDigits (digits ++ List.replicate (point.toNat - digits.length) '0') := hd.append (isDigits_zeros _)
  have hhead : (digits ++ List.replicate (point.toNat - digits.length) '0').head? ≠ some '0' := by
    obtain ⟨d, ds, rfl⟩ := List.exists_cons_of_ne_nil hne
    exact h₀
  have hsplit := scanNumber_of_split (p := p) negative hwhole (by simp [hne]) (.inr hhead)
    (by simp [IsDigits] : IsDigits []) (ends_of_tail hr) (scanExponent_of_ends hr) (by
      rw [List.append_nil, Decimal.valueOf_append_zeros _ hd, Decimal.place_mul_pow hv, List.length_nil]
      have he : (0 : Int) - (0 : Nat) + (point.toNat - digits.length : Nat) = point - digits.length := by omega
      rw [he]
      exact hp)
  simpa [pointed] using hsplit

theorem scanNumber_around_point (negative : Bool) (hd : IsDigits digits) (hne : digits ≠ [])
    (h₀ : digits.head? ≠ some '0')
    (hp : Decimal.place (Decimal.valueOf 10 digits) (point - digits.length) = p.val) (hr : Ends rest)
    (hpoint : ¬ point ≤ 0) (hlt : ¬ digits.length ≤ point.toNat) :
    scanNumber (signOf negative ++ (digits.take point.toNat ++ '.' :: digits.drop point.toNat ++ rest)) =
      some (.signed negative p, rest) := by
  have htake : digits.take point.toNat ++ digits.drop point.toNat = digits := List.take_append_drop _ _
  have hparts : IsDigits (digits.take point.toNat ++ digits.drop point.toNat) := by rwa [htake]
  have hwhole : digits.take point.toNat ≠ [] := by
    rw [Ne, List.take_eq_nil_iff, not_or]
    exact ⟨by omega, hne⟩
  have hdrop : digits.drop point.toNat ≠ [] := by
    rw [Ne, List.drop_eq_nil_iff]
    omega
  have hhead : (digits.take point.toNat).head? ≠ some '0' := by
    rw [List.head?_take, if_neg (by omega)]
    exact h₀
  have hsplit := scanNumber_of_split (p := p) negative hparts.of_prefix hwhole (.inr hhead) hparts.of_suffix
    (ends_of_tail hr) (scanExponent_of_ends hr) (by
      rw [htake, List.length_drop]
      have he : (0 : Int) - (digits.length - point.toNat : Nat) = point - digits.length := by omega
      rw [he]
      exact hp)
  have hpointed : pointed (digits.drop point.toNat) = '.' :: digits.drop point.toNat := by
    simp only [pointed, List.isEmpty_iff, hdrop, if_false]
  rw [hpointed] at hsplit
  simpa using hsplit

theorem scanExponent_printed (exponent : Int) (hr : Ends rest) :
    Decimal.scanExponent ('e' :: (if exponent < 0 then '-' else '+') :: (Nat.toDigits 10 exponent.natAbs ++ rest)) =
      some (exponent, rest) := by
  have htail := scanExponent_mark (decide (exponent < 0)) (isDigits_toDigits exponent.natAbs) Nat.toDigits_ne_nil hr
  rw [Decimal.valueOf_toDigits] at htail
  have hvalue : (if decide (exponent < 0) = true then -(exponent.natAbs : Int) else (exponent.natAbs : Int)) =
      exponent := by
    simp only [decide_eq_true_eq]
    omega
  rw [hvalue] at htail
  simpa using htail

theorem scanNumber_with_exponent {d : Char} {ds : List Char} (negative : Bool) (hd : IsDigits (d :: ds))
    (hp : Decimal.place (Decimal.valueOf 10 (d :: ds)) (point - (d :: ds).length) = p.val) (hr : Ends rest) :
    scanNumber (signOf negative ++ ([d] ++ (pointed ds ++ ('e' :: (if point - 1 < 0 then '-' else '+') ::
      (Nat.toDigits 10 (point - 1).natAbs ++ rest))))) = some (.signed negative p, rest) := by
  have hhead : ∀ c ∈ ('e' :: (if point - 1 < 0 then '-' else '+') ::
      (Nat.toDigits 10 (point - 1).natAbs ++ rest)).head?, c.isDigit = false ∧ c ≠ '.' := by
    rintro c ⟨⟩
    exact ⟨by decide, by decide⟩
  have hparts : IsDigits ([d] ++ ds) := hd
  refine scanNumber_of_split negative hparts.of_prefix (by simp) (.inl rfl) hparts.of_suffix hhead
    (scanExponent_printed (point - 1) hr) ?_
  have he : point - 1 - (ds.length : Int) = point - (d :: ds).length := by
    rw [List.length_cons]
    omega
  rw [he]
  exact hp

/-- However digits are laid out, they are read as the number they denote. -/
theorem scanNumber_layOut (negative : Bool) (hd : IsDigits digits) (hne : digits ≠ [])
    (h₀ : digits.head? ≠ some '0') (hv : Decimal.valueOf 10 digits ≠ 0)
    (hp : Decimal.place (Decimal.valueOf 10 digits) (point - digits.length) = p.val) (hr : Ends rest) :
    scanNumber (signOf negative ++ (Binary64.layOut digits point ++ rest)) =
      some (.signed negative p, rest) := by
  unfold Binary64.layOut Binary64.positional
  dsimp only
  split
  · split
    · rename_i hpoint
      exact scanNumber_behind_zeros negative hd hne hp hr hpoint
    · split
      · rename_i hpoint hle
        exact scanNumber_before_zeros negative hd hne h₀ hv hp hr hpoint hle
      · rename_i hpoint hlt
        exact scanNumber_around_point negative hd hne h₀ hp hr hpoint hlt
  · obtain ⟨d, ds, rfl⟩ := List.exists_cons_of_ne_nil hne
    have hscan := scanNumber_with_exponent negative hd hp hr
    cases ds with
    | nil => simpa [pointed] using hscan
    | cons c cs => simpa [pointed] using hscan

end Layout

section Texts

theorem head_of_scanNumber {cs : List Char} {found : Binary64 × List Char} (h : scanNumber cs = some found) :
    ∃ c ∈ cs.head?, c = '-' ∨ c.isDigit = true := by
  cases cs with
  | nil => cases h
  | cons c cs =>
    refine ⟨c, rfl, ?_⟩
    by_contra hc
    rw [not_or, Bool.not_eq_true] at hc
    have hsign : scanSign (c :: cs) = (false, c :: cs) := by simp [scanSign, hc.1]
    have hspan : (c :: cs).span Char.isDigit = ([], c :: cs) := by simp [List.span, List.span.loop, hc.2]
    unfold scanNumber at h
    simp only [hsign, hspan, List.isEmpty_nil, Bool.true_or, if_true, reduceCtorEq] at h

theorem scanNumber_magnitudeText {p : Fin (Binary64.top + 1)} (negative : Bool) (h₀ : p.val ≠ 0)
    (hr : Ends rest) :
    scanNumber (signOf negative ++ (Binary64.magnitudeText p.val ++ rest)) =
      some (.signed negative p, rest) := by
  have hp : p.val ≤ Binary64.top := Nat.le_of_lt_succ p.isLt
  have hplace := Binary64.place_shortestDecimal hp h₀
  have hc := Binary64.shortestDecimal_ne_zero hp h₀
  unfold Binary64.magnitudeText
  rw [if_neg h₀]
  generalize Binary64.shortestDecimal p.val = d at hplace hc
  obtain ⟨c, e⟩ := d
  dsimp only at hplace hc ⊢
  obtain ⟨k, hk⟩ := exists_zeros (Nat.toDigits 10 c)
  have hvalue := Decimal.valueOf_toDigits c
  have hhead := head?_toDigits_ne hc
  have hall := isDigits_toDigits c
  generalize (List.dropWhile (· == '0') (Nat.toDigits 10 c).reverse).reverse = digits at hk
  rw [hk] at hvalue hhead hall ⊢
  have hd := hall.of_prefix
  rw [Decimal.valueOf_append_zeros k hd] at hvalue
  have hv : Decimal.valueOf 10 digits ≠ 0 := by
    intro hz
    rw [hz, Nat.zero_mul] at hvalue
    exact hc hvalue.symm
  have hne : digits ≠ [] := by
    rintro rfl
    exact hv rfl
  refine scanNumber_layOut negative hd hne ?_ hv ?_ hr
  · obtain ⟨b, bs, rfl⟩ := List.exists_cons_of_ne_nil hne
    exact hhead
  · rw [← hplace, ← hvalue, Decimal.place_mul_pow hv, List.length_append, List.length_replicate]
    congr 1
    omega

/-- A finite number is read back from its text, a negative zero without its sign. -/
theorem scanNumber_number {x : Binary64} (hx : x.isFinite = true) (hr : Ends rest) :
    (scanNumber (number x ++ rest)).map (fun found => (Value.number found.1, found.2)) =
      some ((Value.number x).unsigned, rest) := by
  cases x with
  | nan => cases hx
  | signed negative p =>
    have hp : p.val < Binary64.top := by simpa [Binary64.isFinite] using hx
    have htop : p.val ≠ Binary64.top := Nat.ne_of_lt hp
    unfold number Binary64.text
    rw [if_pos hx]
    dsimp only
    rw [if_neg htop, String.toList_append, String.toList_ofList]
    by_cases h₀ : p.val = 0
    · have hzero : scanNumber ('0' :: rest) = some ((0 : Binary64), rest) := by
        have hdigit : IsDigits ['0'] := isDigits_zeros 1
        have hscan := scanNumber_eq false hdigit (by simp) (.inl rfl) (by simp [IsDigits] : IsDigits [])
          (ends_of_tail hr) (scanExponent_of_ends hr)
        rw [show (Decimal.assemble false ['0'] [] 0).toBinary64 = 0 by decide +kernel] at hscan
        exact hscan
      have hunsigned : (Value.number (.signed negative p)).unsigned = .number 0 := by
        simp [Value.unsigned, Binary64.isNonzero, Binary64.isNan, h₀]
      simp [h₀, Binary64.magnitudeText, hzero, hunsigned]
    · have hunsigned : (Value.number (.signed negative p)).unsigned = .number (.signed negative p) := by
        simp [Value.unsigned, Binary64.isNonzero, h₀]
      have hsign : (if negative && decide (p.val ≠ 0) then "-" else "").toList = signOf negative := by
        cases negative <;> simp [signOf, h₀]
      rw [hsign, List.append_assoc, scanNumber_magnitudeText negative h₀ hr, hunsigned]
      rfl

end Texts

end Json

end GovernedConfig
