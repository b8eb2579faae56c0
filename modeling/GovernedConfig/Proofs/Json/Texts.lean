import GovernedConfig.Json.Printer
import GovernedConfig.Json.Reader

/-! # Texts in JSON

Each text is read back from its characters between quotation marks.
-/

namespace GovernedConfig.Json

variable {c : Char} {cs rest : List Char}

def scanOn (c : Char) (cs : List Char) : Option (List Char × List Char) :=
  (scanText cs).map fun (text, rest) => (c :: text, rest)

theorem scanText_plain (hq : c ≠ '"') (hb : c ≠ '\\') (h : 32 ≤ c.toNat) : scanText (c :: cs) = scanOn c cs := by
  rw [scanText.eq_def]
  split
  · rename_i he
    cases he
    exact absurd rfl hq
  · rename_i he
    cases he
    exact absurd rfl hb
  · rename_i he
    cases he
    exact absurd rfl hb
  · rename_i he
    cases he
    rw [if_neg (by omega)]
    rfl
  · rename_i he
    cases he

theorem scanText_short {e : Char} (he : e ≠ 'u') (h : unescape? e = some c) :
    scanText ('\\' :: e :: cs) = scanOn c cs := by
  rw [scanText.eq_def]
  split
  · rename_i hs
    cases hs
  · rename_i hs
    cases hs
    exact absurd rfl he
  · rename_i hs
    cases hs
    rw [h]
    rfl
  · rename_i hno hs
    cases hs
    exact (hno e cs rfl rfl).elim
  · rename_i hs
    cases hs

theorem scanText_unit {a b d e : Char} {unit : Nat} (h : hexUnit? a b d e = some unit) :
    scanText ('\\' :: 'u' :: a :: b :: d :: e :: cs) = scanOn (Text.charOf unit) cs := by
  rw [scanText, h]
  rfl

theorem hexValue?_digitChar {n : Nat} (h : n < 16) : hexValue? (Nat.digitChar n) = some n := by
  have hall : ∀ n < 16, hexValue? (Nat.digitChar n) = some n := by decide
  exact hall n h

theorem scanText_hex4 {n : Nat} (h : n < 0x10000) :
    scanText ('\\' :: 'u' :: (hex4 n ++ cs)) = scanOn (Text.charOf n) cs := by
  have hunit : hexUnit? (Nat.digitChar (n / 4096 % 16)) (Nat.digitChar (n / 256 % 16))
      (Nat.digitChar (n / 16 % 16)) (Nat.digitChar (n % 16)) = some n := by
    unfold hexUnit?
    rw [hexValue?_digitChar (Nat.mod_lt _ (by decide)), hexValue?_digitChar (Nat.mod_lt _ (by decide)),
      hexValue?_digitChar (Nat.mod_lt _ (by decide)), hexValue?_digitChar (Nat.mod_lt _ (by decide))]
    change some _ = some n
    congr 1
    omega
  exact scanText_unit hunit

theorem charOf_of_lt (h : c.toNat < 32) : Text.charOf c.toNat = c := by
  have hh : (Text.isHigh c.toNat || Text.isLow c.toNat) = false := by
    simp only [Text.isHigh, Text.isLow, Bool.or_eq_false_iff, decide_eq_false_iff_not]
    omega
  rw [Text.charOf, hh, if_neg (by decide), Char.ofNat_toNat]

theorem charOf_of_isStandIn (h : Text.isStandIn c = true) :
    c.toNat - Text.standInOffset < 0x10000 ∧ Text.charOf (c.toNat - Text.standInOffset) = c := by
  have hlow : 0x10F800 ≤ c.toNat := of_decide_eq_true h
  have hhigh : c.toNat < 0x110000 := by
    have := c.valid
    unfold UInt32.isValidChar Nat.isValidChar at this
    unfold Char.toNat
    omega
  have hoffset : Text.standInOffset = 0x102000 := rfl
  have hh : (Text.isHigh (c.toNat - Text.standInOffset) || Text.isLow (c.toNat - Text.standInOffset)) = true := by
    simp only [Text.isHigh, Text.isLow, Bool.or_eq_true, decide_eq_true_eq]
    omega
  refine ⟨by omega, ?_⟩
  rw [Text.charOf, hh, if_pos rfl, Nat.sub_add_cancel (by omega), Char.ofNat_toNat]

theorem scanText_escape (c : Char) (cs : List Char) : scanText (escape c ++ cs) = scanOn c cs := by
  unfold escape
  split
  · rename_i h
    subst h
    exact scanText_short (by decide) rfl
  split
  · rename_i h
    subst h
    exact scanText_short (by decide) rfl
  split
  · rename_i h
    subst h
    exact scanText_short (by decide) rfl
  split
  · rename_i h
    subst h
    exact scanText_short (by decide) rfl
  split
  · rename_i h
    subst h
    exact scanText_short (by decide) rfl
  split
  · rename_i h
    apply scanText_short (by decide)
    rw [← Char.ofNat_toNat c, h]
    rfl
  split
  · rename_i h
    apply scanText_short (by decide)
    rw [← Char.ofNat_toNat c, h]
    rfl
  split
  · rename_i h
    rw [List.cons_append, List.cons_append, scanText_hex4 (by omega), charOf_of_lt h]
  split
  · rename_i h
    obtain ⟨hlt, hc⟩ := charOf_of_isStandIn h
    rw [List.cons_append, List.cons_append, scanText_hex4 hlt, hc]
  · rename_i hq hb _ _ _ _ _ hlow _
    exact scanText_plain hq hb (by omega)

/-- A half that belongs to another one is read back as it stands. -/
theorem scanText_half (h : Text.isStandIn c = true) : scanText (c :: cs) = scanOn c cs := by
  have hlow : 0x10F800 ≤ c.toNat := of_decide_eq_true h
  refine scanText_plain ?_ ?_ (by omega)
  · rintro rfl
    exact absurd h (by decide)
  · rintro rfl
    exact absurd h (by decide)

theorem scanOn_eq_some (h : scanText cs = some (cs', rest)) : scanOn c cs = some (c :: cs', rest) := by
  rw [scanOn, h]
  rfl

theorem scanText_escapeAll (cs rest : List Char) : scanText (escapeAll cs ++ '"' :: rest) = some (cs, rest) := by
  induction cs using escapeAll.induct with
  | case1 c d cs h ih =>
    rw [Bool.and_eq_true, Text.isHighHalf, Text.isLowHalf, Bool.and_eq_true, Bool.and_eq_true] at h
    rw [escapeAll, if_pos (by simp [Text.isHighHalf, Text.isLowHalf, h]), List.cons_append, List.cons_append,
      scanText_half h.1.1]
    apply scanOn_eq_some
    rw [scanText_half h.2.1]
    exact scanOn_eq_some ih
  | case2 c d cs h ih =>
    rw [escapeAll, if_neg h, List.append_assoc, scanText_escape]
    exact scanOn_eq_some ih
  | case3 c =>
    rw [escapeAll, scanText_escape]
    exact scanOn_eq_some (by rw [scanText])
  | case4 => rw [escapeAll, List.nil_append, scanText]

end GovernedConfig.Json
