import Mathlib.Algebra.Order.Ring.Nat
import Mathlib.Tactic.Ring
import GovernedConfig.Number.Binary64

/-! # Places of magnitudes

A place is a significand behind an exponent. Places and magnitudes are ordered alike, rounding goes to
a place that is not further off than any other one, and magnitudes of the format are kept as they are.
-/

namespace GovernedConfig.Binary64

theorem binade_pos : 0 < binade := by decide

theorem one_eq : one = 2 ^ 1074 := by decide +kernel

theorem one_pos : 0 < one := by
  obtain ⟨a, ha⟩ : ∃ a, one = 2 ^ a := ⟨1074, one_eq⟩
  rw [ha]
  exact Nat.two_pow_pos a

theorem units_place {e m : Nat} (hm : m ≤ 2 * binade) (h : e = 0 ∨ binade ≤ m) :
    units (e * binade + m) = m * 2 ^ e := by
  have hb := binade_pos
  have normal : ∀ e m, binade ≤ m → m < 2 * binade → units (e * binade + m) = m * 2 ^ e := by
    intro e m h hm
    have hp : e * binade + m = (m - binade) + binade * (e + 1) := by
      rw [Nat.mul_succ, Nat.mul_comm binade e]
      omega
    have hlt : ¬ e * binade + m < binade := by
      have := Nat.zero_le (e * binade)
      omega
    rw [units, if_neg hlt, hp, Nat.add_mul_mod_self_left, Nat.add_mul_div_left _ _ hb,
      Nat.mod_eq_of_lt (by omega), Nat.div_eq_of_lt (by omega), Nat.add_sub_cancel' h, Nat.zero_add,
      Nat.add_sub_cancel]
    rfl
  by_cases hn : m < binade
  · have he : e = 0 := by omega
    subst he
    rw [Nat.zero_mul, Nat.zero_add, units, if_pos hn, Nat.div_eq_of_lt hn]
    rfl
  · by_cases hm' : m < 2 * binade
    · exact normal e m (by omega) hm'
    · have hm₂ : m = 2 * binade := by omega
      have hp : e * binade + 2 * binade = (e + 1) * binade + binade := by ring
      rw [hm₂, hp, normal (e + 1) binade (le_refl _) (by omega)]
      ring

theorem exists_place (p : Nat) :
    ∃ e m, p = e * binade + m ∧ m < 2 * binade ∧ (e = 0 ∨ binade ≤ m) := by
  have hb := binade_pos
  by_cases hp : p < binade
  · exact ⟨0, p, by omega, by omega, .inl rfl⟩
  · have hd := Nat.div_add_mod p binade
    have hm := Nat.mod_lt p hb
    have hq : 1 ≤ p / binade := (Nat.one_le_div_iff hb).mpr (by omega)
    refine ⟨p / binade - 1, binade + p % binade, ?_, by omega, .inr (by omega)⟩
    have hs : (p / binade - 1) * binade + binade = binade * (p / binade) := by
      rw [Nat.sub_mul, Nat.one_mul, Nat.mul_comm]
      exact Nat.sub_add_cancel (Nat.le_mul_of_pos_right _ hq)
    omega

theorem units_zero : units 0 = 0 := by decide

theorem units_lt_succ (p : Nat) : units p < units (p + 1) := by
  obtain ⟨e, m, rfl, hm, h⟩ := exists_place p
  rw [units_place (by omega) h, Nat.add_assoc, units_place (by omega) (by omega)]
  exact Nat.mul_lt_mul_of_pos_right (Nat.lt_succ_self m) (Nat.pow_pos (by decide))

theorem units_strictMono : StrictMono units := strictMono_nat_of_lt_succ units_lt_succ

section Rounding

theorem roundQuotient_le {num den k : Nat} (h : num ≤ k * den) (hd : 0 < den) :
    roundQuotient num den ≤ k := by
  have hq : num / den ≤ k := Nat.div_le_of_le_mul (by rw [Nat.mul_comm den]; exact h)
  unfold roundQuotient
  dsimp only
  split
  · rename_i hr
    by_contra hk
    have he : num / den = k := by omega
    have hn := Nat.div_add_mod num den
    rw [he, Nat.mul_comm] at hn
    omega
  · exact hq

theorem le_roundQuotient {num den k : Nat} (h : k * den ≤ num) (hd : 0 < den) :
    k ≤ roundQuotient num den := by
  have hq : k ≤ num / den := (Nat.le_div_iff_mul_le hd).mpr h
  unfold roundQuotient
  dsimp only
  split <;> omega

variable {num den p : Nat}

theorem shift_le_of_lt {v e : Nat} (h : v < 2 ^ (e + 53)) : v.log2 - 52 ≤ e := by
  by_cases hv : v = 0
  · simp [hv]
  · have := (Nat.log2_lt hv).mpr h
    omega

theorem le_shift_of_le {v e : Nat} (h : 2 ^ (e + 52) ≤ v) : e ≤ v.log2 - 52 := by
  have hv : v ≠ 0 := by
    have : 0 < 2 ^ (e + 52) := Nat.pow_pos (by decide)
    omega
  have := (Nat.le_log2 hv).mpr h
  omega

theorem lt_of_shift {v : Nat} : v < 2 ^ (v.log2 - 52 + 53) := by
  refine lt_of_lt_of_le Nat.lt_log2_self (Nat.pow_le_pow_right (by decide) ?_)
  omega

/-- What is at most a magnitude of the format is rounded to at most its place. -/
theorem nearest_le (hd : 0 < den) (h : num * one ≤ units p * den) : nearest num den ≤ p := by
  obtain ⟨e, m, rfl, hm, he⟩ := exists_place p
  rw [units_place (by omega) he] at h
  have hv : num * one / den ≤ m * 2 ^ e := Nat.div_le_of_le_mul (by rw [Nat.mul_comm den]; exact h)
  have hs : (num * one / den).log2 - 52 ≤ e := by
    refine shift_le_of_lt (lt_of_le_of_lt hv ?_)
    rw [Nat.pow_add, Nat.mul_comm]
    exact Nat.mul_lt_mul_of_pos_left hm (Nat.pow_pos (by decide))
  apply le_trans (Nat.min_le_left _ _)
  have hlt : num * one / den < 2 ^ ((num * one / den).log2 - 52 + 53) := lt_of_shift
  generalize hshift : (num * one / den).log2 - 52 = shift at hs hlt
  have hpos : 0 < den * Nat.pow 2 shift := Nat.mul_pos hd (Nat.pow_pos (by decide))
  rcases Nat.eq_or_lt_of_le hs with rfl | hs
  · refine Nat.add_le_add_left (roundQuotient_le ?_ hpos) _
    calc num * one ≤ m * 2 ^ shift * den := h
      _ = m * (den * Nat.pow 2 shift) := by change _ = m * (den * 2 ^ shift); ring
  · have hq : roundQuotient (num * one) (den * Nat.pow 2 shift) ≤ 2 * binade := by
      refine roundQuotient_le (le_of_lt ?_) hpos
      have hn : num * one < 2 ^ (shift + 53) * den := (Nat.div_lt_iff_lt_mul hd).mp hlt
      calc num * one < 2 ^ (shift + 53) * den := hn
        _ = 2 * binade * (den * Nat.pow 2 shift) := by
          change _ = 2 * 2 ^ 52 * (den * 2 ^ shift)
          ring
    have hme : binade ≤ m := by omega
    have hle : (shift + 1) * binade ≤ e * binade := Nat.mul_le_mul_right _ hs
    rw [Nat.add_mul, Nat.one_mul] at hle
    omega

theorem le_nearest (hd : 0 < den) (hp : p ≤ top) (h : units p * den ≤ num * one) : p ≤ nearest num den := by
  refine Nat.le_min.mpr ⟨?_, hp⟩
  obtain ⟨e, m, rfl, hm, he⟩ := exists_place p
  rw [units_place (by omega) he] at h
  have hv : m * 2 ^ e ≤ num * one / den := (Nat.le_div_iff_mul_le hd).mpr h
  generalize hshift : (num * one / den).log2 - 52 = shift
  have hs : e ≤ shift := by
    rcases he with rfl | he
    · exact Nat.zero_le _
    · rw [← hshift]
      refine le_shift_of_le (le_trans ?_ hv)
      rw [Nat.pow_add, Nat.mul_comm]
      exact Nat.mul_le_mul_right _ he
  have hpos : 0 < den * Nat.pow 2 shift := Nat.mul_pos hd (Nat.pow_pos (by decide))
  rcases Nat.eq_or_lt_of_le hs with rfl | hs
  · refine Nat.add_le_add_left (le_roundQuotient ?_ hpos) _
    calc m * (den * Nat.pow 2 e) = m * 2 ^ e * den := by change m * (den * 2 ^ e) = _; ring
      _ ≤ num * one := h
  · have hv₂ : 2 ^ (shift + 52) ≤ num * one / den := by
      have hn : num * one / den ≠ 0 := by
        intro hz
        rw [hz] at hshift
        simp at hshift
        omega
      apply (Nat.le_log2 hn).mp
      omega
    have hq : binade ≤ roundQuotient (num * one) (den * Nat.pow 2 shift) := by
      refine le_roundQuotient ?_ hpos
      calc binade * (den * Nat.pow 2 shift) = 2 ^ (shift + 52) * den := by
            change 2 ^ 52 * (den * 2 ^ shift) = _
            ring
        _ ≤ num * one := (Nat.le_div_iff_mul_le hd).mp hv₂
    have hle : (e + 1) * binade ≤ shift * binade := Nat.mul_le_mul_right _ hs
    rw [Nat.add_mul, Nat.one_mul] at hle
    omega

/-- A magnitude of the format is rounded to its own place. -/
theorem nearest_eq (hd : 0 < den) (hp : p ≤ top) (h : num * one = units p * den) : nearest num den = p :=
  Nat.le_antisymm (nearest_le hd (le_of_eq h)) (le_nearest hd hp (le_of_eq h.symm))

end Rounding

end GovernedConfig.Binary64
