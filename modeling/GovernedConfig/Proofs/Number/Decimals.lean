import Mathlib.Data.Nat.Prime.Pow
import GovernedConfig.Number.Shortest
import GovernedConfig.Proofs.Number.Places

/-! # Places of decimals

The place of a decimal is that of the ratio it denotes, so zeros may move from its coefficient into its
exponent. The shortest decimal of a magnitude reads back as it.
-/

namespace GovernedConfig

namespace Binary64

section Ratios

variable {num den : Nat}

theorem roundQuotient_mul {k : Nat} (hk : 0 < k) (num den : Nat) :
    roundQuotient (num * k) (den * k) = roundQuotient num den := by
  have hlt : ∀ a b : Nat, b * k < a * k ↔ b < a := fun a b => Nat.mul_lt_mul_right hk
  have heq : ∀ a b : Nat, a * k = b * k ↔ a = b := fun a b => Nat.mul_left_inj (Nat.ne_of_gt hk)
  unfold roundQuotient
  dsimp only
  rw [Nat.mul_div_mul_right _ _ hk, Nat.mul_mod_mul_right, ← Nat.mul_assoc]
  simp only [GT.gt, hlt, heq]

theorem nearest_mul {k : Nat} (hk : 0 < k) (num den : Nat) : nearest (num * k) (den * k) = nearest num den := by
  unfold nearest
  dsimp only
  rw [Nat.mul_right_comm num k one, Nat.mul_div_mul_right _ _ hk, Nat.mul_right_comm den k, roundQuotient_mul hk]

/-- Rounding sees nothing of a ratio but its value. -/
theorem nearest_congr {num' den' : Nat} (hd : 0 < den) (hd' : 0 < den') (h : num * den' = num' * den) :
    nearest num den = nearest num' den' := by
  rw [← nearest_mul hd' num den, h, Nat.mul_comm den den', nearest_mul hd]

theorem nearest_eq_zero (h : 2 * (num * one) < den) : nearest num den = 0 := by
  have hq : num * one / den = 0 := Nat.div_eq_of_lt (by omega)
  have hr : roundQuotient (num * one) (den * Nat.pow 2 0) = 0 := by
    have hd : den * Nat.pow 2 0 = den := Nat.mul_one den
    rw [hd]
    unfold roundQuotient
    dsimp only
    rw [hq, Nat.mod_eq_of_lt (by omega), if_neg (by omega)]
  unfold nearest
  dsimp only
  rw [hq, show (0 : Nat).log2 - 52 = 0 by decide, hr, Nat.zero_mul, Nat.zero_add, Nat.zero_min]

end Ratios

end Binary64

namespace Decimal

open Binary64

variable {c : Nat} {e : Int}

theorem nearest_eq_top {k : Nat} (hc : c ≠ 0) (hk : 400 < k) : nearest (c * 10 ^ k) 1 = top := by
  refine Nat.le_antisymm (nearest_le_top _ _) (le_nearest (by decide) (Nat.le_refl _) ?_)
  obtain ⟨a, ha, hone⟩ : ∃ a, a = 1074 ∧ one = 2 ^ a := ⟨1074, rfl, one_eq⟩
  obtain ⟨b, hb, hu⟩ : ∃ b ≤ 2098, units top = 2 ^ b := by
    obtain ⟨e, he, hp⟩ : ∃ e ≤ 2046, top = e * binade + binade := ⟨2046, Nat.le_refl _, by decide⟩
    refine ⟨52 + e, by omega, ?_⟩
    rw [hp, units_place (by omega) (.inr (Nat.le_refl _)), show binade = 2 ^ 52 from rfl, ← Nat.pow_add]
  rw [hu, hone, Nat.mul_one]
  calc 2 ^ b ≤ 2 ^ (3 * k + a) := Nat.pow_le_pow_right (by decide) (by omega)
    _ = 8 ^ k * 2 ^ a := by rw [Nat.pow_add, Nat.pow_mul]
    _ ≤ 10 ^ k * 2 ^ a := Nat.mul_le_mul_right _ (Nat.pow_le_pow_left (by decide) k)
    _ ≤ c * 10 ^ k * 2 ^ a :=
      Nat.mul_le_mul_right _ (Nat.le_mul_of_pos_left _ (Nat.pos_of_ne_zero hc))

theorem nearest_eq_zero_of_log2 {k : Nat} (hk : c.log2 + 400 < k) : nearest c (10 ^ k) = 0 := by
  apply nearest_eq_zero
  obtain ⟨a, ha, hone⟩ : ∃ a, a = 1074 ∧ one = 2 ^ a := ⟨1074, rfl, one_eq⟩
  have hc : c < 2 ^ (k - 400) :=
    lt_of_lt_of_le Nat.lt_log2_self (Nat.pow_le_pow_right (by decide) (by omega))
  rw [hone]
  calc 2 * (c * 2 ^ a) < 2 * (2 ^ (k - 400) * 2 ^ a) := by
        refine Nat.mul_lt_mul_of_pos_left ?_ (by decide)
        exact Nat.mul_lt_mul_of_pos_right hc (Nat.two_pow_pos a)
    _ = 2 ^ (k - 400 + a + 1) := by ring
    _ ≤ 2 ^ (3 * k) := Nat.pow_le_pow_right (by decide) (by omega)
    _ = 8 ^ k := by rw [Nat.pow_mul]
    _ ≤ 10 ^ k := Nat.pow_le_pow_left (by decide) k

theorem place_eq_nearest (hc : c ≠ 0) (e : Int) :
    place c e = nearest (c * 10 ^ e.toNat) (10 ^ (-e).toNat) := by
  unfold place
  rw [if_neg hc]
  split
  · rename_i he
    have hn : (-e).toNat = 0 := by omega
    rw [hn, Nat.pow_zero, nearest_eq_top hc (by omega)]
  split
  · rename_i he
    have hp : e.toNat = 0 := by omega
    rw [hp, Nat.pow_zero, Nat.mul_one, nearest_eq_zero_of_log2 (by omega)]
  cases e with
  | ofNat k =>
    have hn : (-(Int.ofNat k)).toNat = 0 := by
      rw [Int.ofNat_eq_natCast]
      omega
    rw [hn]
    rfl
  | negSucc k =>
    have hp : (Int.negSucc k).toNat = 0 := rfl
    have hn : (-(Int.negSucc k)).toNat = k + 1 := rfl
    rw [hp, hn, Nat.pow_zero, Nat.mul_one]
    rfl

/-- Zeros at the end of a coefficient may as well stand in the exponent. -/
theorem place_mul_pow (hc : c ≠ 0) (k : Nat) (e : Int) : place (c * 10 ^ k) e = place c (e + k) := by
  have hp : 0 < 10 ^ k := Nat.pow_pos (by decide)
  rw [place_eq_nearest (Nat.mul_ne_zero hc (Nat.ne_of_gt hp)), place_eq_nearest hc]
  apply nearest_congr (Nat.pow_pos (by decide)) (Nat.pow_pos (by decide))
  have he : k + e.toNat + (-(e + k)).toNat = (e + k).toNat + (-e).toNat := by omega
  rw [Nat.mul_assoc c, Nat.mul_assoc c, Nat.mul_assoc c, ← Nat.pow_add, ← Nat.pow_add, ← Nat.pow_add, he]

theorem place_zero (e : Int) : place 0 e = 0 := by simp [place]

end Decimal

namespace Binary64

variable {p : Nat}

theorem place_exactDecimal (hp : p ≤ top) (h₀ : p ≠ 0) :
    Decimal.place (exactDecimal p).1 (-((exactDecimal p).2 : Int)) = p := by
  obtain ⟨a, hone⟩ : ∃ a, one = 2 ^ a := ⟨1074, one_eq⟩
  obtain ⟨j, hj, hg⟩ : ∃ j ≤ a, Nat.gcd (units p) one = 2 ^ j :=
    (Nat.dvd_prime_pow Nat.prime_two).mp (hone ▸ Nat.gcd_dvd_right (units p) one)
  have hpos : 0 < 2 ^ j := Nat.two_pow_pos j
  obtain ⟨u, hu⟩ : 2 ^ j ∣ units p := hg ▸ Nat.gcd_dvd_left (units p) one
  have hplaces : (exactDecimal p).2 = a - j := by
    have hd : one / Nat.gcd (units p) one = 2 ^ (a - j) := by
      rw [hg, hone, Nat.pow_div hj (by decide)]
    rw [exactDecimal]
    dsimp only
    rw [hd, Nat.log2_two_pow]
  have hcoefficient : (exactDecimal p).1 = u * 5 ^ (a - j) := by
    have hq : units p / Nat.gcd (units p) one = u := by rw [hg, hu, Nat.mul_div_cancel_left _ hpos]
    have hplaces' := hplaces
    rw [exactDecimal] at hplaces' ⊢
    dsimp only at hplaces' ⊢
    rw [hplaces', hq]
    rfl
  have hu₀ : u ≠ 0 := by
    rintro rfl
    have := units_strictMono (Nat.pos_of_ne_zero h₀)
    rw [hu, Nat.mul_zero] at this
    omega
  rw [hplaces, hcoefficient,
    Decimal.place_eq_nearest (Nat.mul_ne_zero hu₀ (Nat.ne_of_gt (Nat.pow_pos (by decide))))]
  have hp' : (-((a - j : Nat) : Int)).toNat = 0 := by omega
  have hn' : (-(-((a - j : Nat) : Int))).toNat = a - j := by omega
  rw [hp', hn', Nat.pow_zero, Nat.mul_one]
  apply nearest_eq (Nat.pow_pos (by decide)) hp
  calc u * 5 ^ (a - j) * one = u * 5 ^ (a - j) * (2 ^ (a - j) * 2 ^ j) := by
        rw [hone, ← Nat.pow_add, Nat.sub_add_cancel hj]
    _ = 2 ^ j * u * (2 * 5) ^ (a - j) := by
        rw [Nat.mul_pow]
        ring
    _ = units p * 10 ^ (a - j) := by rw [hu]

theorem place_of_decimalOfLength {exact places length count : Nat} {d : Nat × Int}
    (h : decimalOfLength p exact places length count = some d) : Decimal.place d.1 d.2 = p := by
  unfold decimalOfLength at h
  dsimp only at h
  split at h
  · rename_i hc
    cases h
    simp only [Bool.and_eq_true, beq_iff_eq] at hc
    exact hc.1
  · split at h
    · rename_i hc
      cases h
      exact of_decide_eq_true hc
    · cases h

/-- The printed decimal of a magnitude reads back as it. -/
theorem place_shortestDecimal (hp : p ≤ top) (h₀ : p ≠ 0) :
    Decimal.place (shortestDecimal p).1 (shortestDecimal p).2 = p := by
  unfold shortestDecimal
  dsimp only
  generalize hf : (List.range 17).findSome? _ = found
  cases found with
  | none => exact place_exactDecimal hp h₀
  | some d =>
    obtain ⟨n, -, hn⟩ := List.exists_of_findSome?_eq_some hf
    exact place_of_decimalOfLength hn

theorem shortestDecimal_ne_zero (hp : p ≤ top) (h₀ : p ≠ 0) : (shortestDecimal p).1 ≠ 0 := by
  intro h
  have := place_shortestDecimal hp h₀
  rw [h, Decimal.place_zero] at this
  exact h₀ this.symm

end Binary64

end GovernedConfig
