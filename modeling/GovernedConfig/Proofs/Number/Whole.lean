import Mathlib.Data.Int.Basic
import GovernedConfig.Calendar
import GovernedConfig.Proofs.Number.Places

/-! # Whole numbers

The numbers that are integers, their order, and the operations that lead to integers. A clock that
shows whole milliseconds shows whole seconds.
-/

namespace GovernedConfig

namespace Binary64

variable {x y : Binary64} {m n : Int}

theorem units_pos_iff {p : Nat} : 0 < units p ↔ 0 < p := by
  rw [← units_zero]
  exact units_strictMono.lt_iff_lt

theorem rank_lt_iff (hx : x.isNan = false) (hy : y.isNan = false) :
    x.rank < y.rank ↔ x.signedUnits < y.signedUnits := by
  cases x with
  | nan => cases hx
  | signed s p =>
    cases y with
    | nan => cases hy
    | signed t q =>
      have hp := units_pos_iff (p := p.val)
      have hq := units_pos_iff (p := q.val)
      have hpq := units_strictMono.lt_iff_lt (a := p.val) (b := q.val)
      have hqp := units_strictMono.lt_iff_lt (a := q.val) (b := p.val)
      cases s <;> cases t <;> simp only [rank, signedUnits] <;> omega

theorem isNan_of_isFinite (h : x.isFinite = true) : x.isNan = false := by
  cases x with
  | nan => cases h
  | signed s p => rfl

section Equality

theorem equalsInt_iff : x.equalsInt n = true ↔ x.isFinite = true ∧ x.signedUnits = n * one := by
  rw [equalsInt, Bool.and_eq_true, beq_iff_eq]

theorem isInteger_iff : x.isInteger = true ↔ ∃ n, x.equalsInt n = true := by
  simp only [isInteger, Bool.and_eq_true, beq_iff_eq, equalsInt_iff]
  constructor
  · rintro ⟨hf, hm⟩
    obtain ⟨n, hn⟩ := Int.dvd_of_emod_eq_zero hm
    exact ⟨n, hf, by rw [hn, Int.mul_comm]⟩
  · rintro ⟨n, hf, hn⟩
    exact ⟨hf, by rw [hn]; exact Int.mul_emod_left n one⟩

theorem mul_one_lt_iff : m * one < n * one ↔ m < n :=
  Int.mul_lt_mul_right (Int.natCast_pos.mpr one_pos)

theorem equalsInt_unique (hm : x.equalsInt m = true) (hn : x.equalsInt n = true) : m = n := by
  have h := (equalsInt_iff.mp hm).2.symm.trans (equalsInt_iff.mp hn).2
  exact Int.eq_of_mul_eq_mul_right (Int.natCast_ne_zero.mpr (Nat.ne_of_gt one_pos)) h

theorem less_of_equalsInt (hx : x.equalsInt m = true) (hy : y.equalsInt n = true) :
    x.less y = decide (m < n) := by
  obtain ⟨hfx, hx⟩ := equalsInt_iff.mp hx
  obtain ⟨hfy, hy⟩ := equalsInt_iff.mp hy
  have hnx := isNan_of_isFinite hfx
  have hny := isNan_of_isFinite hfy
  rw [less, hnx, hny, Bool.not_false, Bool.true_and, Bool.true_and, decide_eq_decide, rank_lt_iff hnx hny,
    hx, hy, mul_one_lt_iff]

theorem equalsInt_of_equals (h : x.equals y = true) (hy : y.equalsInt n = true) : x.equalsInt n = true := by
  simp only [equals, Bool.and_eq_true, Bool.not_eq_true', beq_iff_eq] at h
  obtain ⟨⟨hnx, hny⟩, hrank⟩ := h
  obtain ⟨hfinite, hunits⟩ := equalsInt_iff.mp hy
  have hlt := rank_lt_iff hnx hny
  have hgt := rank_lt_iff hny hnx
  refine equalsInt_iff.mpr ⟨?_, by omega⟩
  cases x with
  | nan => cases hnx
  | signed s p =>
    cases y with
    | nan => cases hny
    | signed t q =>
      have hq : q.val < top := of_decide_eq_true hfinite
      refine decide_eq_true ?_
      cases s <;> cases t <;> simp only [rank] at hrank <;> omega

theorem exists_zero (hz : x.isNonzero = false) (hn : x.isNan = false) : ∃ negative, x = zero negative := by
  cases x with
  | nan => cases hn
  | signed negative p =>
    refine ⟨negative, ?_⟩
    obtain rfl : p = ⟨0, Nat.succ_pos _⟩ := Fin.ext (by simpa [isNonzero] using hz)
    rfl

theorem small_equalsInt : ∀ k < 3, (ofNat k).equalsInt k = true := by decide +kernel

theorem zero_equalsInt : (ofNat 0).equalsInt 0 = true := small_equalsInt 0 (by decide)

theorem zero_isInteger : (0 : Binary64).isInteger = true := isInteger_iff.mpr ⟨0, zero_equalsInt⟩

theorem one_equalsInt : (ofNat 1).equalsInt 1 = true := small_equalsInt 1 (by decide)

theorem two_equalsInt : (ofNat 2).equalsInt 2 = true := small_equalsInt 2 (by decide)

theorem rank_le_of_position_lt (hx : x.isNan = false) (hy : y.isNan = false) :
    (x.position < y.position → x.rank ≤ y.rank) ∧ (¬ x.position < y.position → y.rank ≤ x.rank) := by
  cases x with
  | nan => cases hx
  | signed s p =>
    cases y with
    | nan => cases hy
    | signed t q => cases s <;> cases t <;> simp only [rank, position] <;> omega

theorem max_equalsInt (hx : x.equalsInt m = true) (hy : y.equalsInt n = true) :
    (x.max y).equalsInt (Max.max m n) = true := by
  have hnx := isNan_of_isFinite (equalsInt_iff.mp hx).1
  have hny := isNan_of_isFinite (equalsInt_iff.mp hy).1
  have hxy : x.rank < y.rank ↔ m < n := by
    rw [rank_lt_iff hnx hny, (equalsInt_iff.mp hx).2, (equalsInt_iff.mp hy).2, mul_one_lt_iff]
  have hyx : y.rank < x.rank ↔ n < m := by
    rw [rank_lt_iff hny hnx, (equalsInt_iff.mp hx).2, (equalsInt_iff.mp hy).2, mul_one_lt_iff]
  obtain ⟨hlt, hle⟩ := rank_le_of_position_lt hnx hny
  rw [max, hnx, hny]
  by_cases h : x.position < y.position
  · have := hlt h
    rw [if_neg (by decide), if_pos h, Int.max_eq_right (by omega)]
    exact hy
  · have := hle h
    rw [if_neg (by decide), if_neg h, Int.max_eq_left (by omega)]
    exact hx

end Equality

section Rounding

theorem one_dvd_units_nearest (k : Nat) (hk : nearest k 1 < top) : one ∣ units (nearest k 1) := by
  unfold nearest at hk ⊢
  dsimp only at hk ⊢
  rw [Nat.div_one, Nat.one_mul] at hk ⊢
  generalize hshift : (k * one).log2 - 52 = shift at hk ⊢
  have hpos : 0 < Nat.pow 2 shift := Nat.pow_pos (by decide)
  rw [Nat.min_eq_left (by omega)]
  have hlt : k * one < 2 ^ (shift + 53) := hshift ▸ lt_of_shift
  have hq : roundQuotient (k * one) (Nat.pow 2 shift) ≤ 2 * binade := by
    refine roundQuotient_le (le_of_lt ?_) hpos
    calc k * one < 2 ^ (shift + 53) := hlt
      _ = 2 * binade * Nat.pow 2 shift := by
        change _ = 2 * 2 ^ 52 * 2 ^ shift
        ring
  have hs : shift = 0 ∨ binade ≤ roundQuotient (k * one) (Nat.pow 2 shift) := by
    by_cases h0 : shift = 0
    · exact .inl h0
    · refine .inr (le_roundQuotient ?_ hpos)
      have hv : k * one ≠ 0 := by
        intro hz
        rw [hz] at hshift
        simp at hshift
        omega
      calc binade * Nat.pow 2 shift = 2 ^ (shift + 52) := by
            change 2 ^ 52 * 2 ^ shift = _
            ring
        _ ≤ k * one := (Nat.le_log2 hv).mp (by omega)
  rw [units_place hq hs]
  -- Above the exponent of one every significand is whole; below it nothing was rounded off.
  obtain ⟨a, ha⟩ : ∃ a, one = 2 ^ a := ⟨1074, one_eq⟩
  by_cases h : a ≤ shift
  · rw [ha]
    exact Dvd.dvd.mul_left (Nat.pow_dvd_pow 2 h) _
  · have he : k * one = k * 2 ^ (a - shift) * Nat.pow 2 shift := by
      change _ = k * 2 ^ (a - shift) * 2 ^ shift
      rw [ha, Nat.mul_assoc, ← Nat.pow_add, Nat.sub_add_cancel (by omega)]
    have hr : roundQuotient (k * one) (Nat.pow 2 shift) = k * 2 ^ (a - shift) :=
      Nat.le_antisymm (roundQuotient_le (le_of_eq he) hpos) (le_roundQuotient (le_of_eq he.symm) hpos)
    have hu : k * 2 ^ (a - shift) * 2 ^ shift = k * one := he.symm
    rw [hr, hu]
    exact Nat.dvd_mul_left one k

theorem signed_isInteger_iff {s : Bool} {p : Fin (top + 1)} :
    (Binary64.signed s p).isInteger = true ↔ p.val < top ∧ one ∣ units p.val := by
  cases s
  · simp only [isInteger, isFinite, signedUnits, Bool.and_eq_true, decide_eq_true_eq, beq_iff_eq,
      ← Int.dvd_iff_emod_eq_zero, Int.natCast_dvd_natCast]
  · simp only [isInteger, isFinite, signedUnits, Bool.and_eq_true, decide_eq_true_eq, beq_iff_eq,
      ← Int.dvd_iff_emod_eq_zero, Int.dvd_neg, Int.natCast_dvd_natCast]

theorem ofRatio_isInteger {k : Nat} (h : k * one ≤ units (top - 1)) (negative : Bool) :
    (ofRatio negative k 1).isInteger = true := by
  have hle : nearest k 1 ≤ top - 1 := nearest_le (by decide) (by rw [Nat.mul_one]; exact h)
  have hlt : nearest k 1 < top := lt_of_le_of_lt hle (by decide)
  exact signed_isInteger_iff.mpr ⟨hlt, one_dvd_units_nearest k hlt⟩

theorem one_dvd_units_last : one ∣ units (top - 1) := by decide +kernel

theorem floor_isInteger (hx : x.isFinite = true) : x.floor.isInteger = true := by
  cases x with
  | nan => cases hx
  | signed s p =>
    have hp : p.val < top := by simpa [isFinite] using hx
    rw [floor, if_neg (Nat.ne_of_lt hp)]
    refine ofRatio_isInteger ?_ s
    have hone := one_pos
    have hu : units p.val ≤ units (top - 1) := units_strictMono.monotone (by omega)
    have hlast := one_dvd_units_last
    generalize units (top - 1) = last at hu hlast
    obtain ⟨k, rfl⟩ := hlast
    rw [Nat.mul_comm]
    apply Nat.mul_le_mul_left one
    have hc : ((one * k : Nat) : Int) = k * one := by rw [Int.natCast_mul, Int.mul_comm]
    have hlow : -(k : Int) ≤ (signedUnits (.signed s p)).fdiv one := by
      rw [Int.fdiv_eq_ediv_of_nonneg _ (by omega), Int.le_ediv_iff_mul_le (by omega), Int.neg_mul, ← hc]
      cases s <;> simp only [signedUnits] <;> omega
    have hhigh : (signedUnits (.signed s p)).fdiv one < (k : Int) + 1 := by
      rw [Int.fdiv_eq_ediv_of_nonneg _ (by omega), Int.ediv_lt_iff_lt_mul (by omega), Int.add_mul, ← hc]
      cases s <;> simp only [signedUnits] <;> omega
    omega

theorem div_isFinite {s : Bool} {q : Fin (top + 1)} (hx : x.isFinite = true) (hq : q.val < top)
    (hone : one ≤ units q.val) : (x.div (.signed s q)).isFinite = true := by
  cases x with
  | nan => cases hx
  | signed t p =>
    have hp : p.val < top := by simpa [isFinite] using hx
    have hpos : 0 < units q.val := lt_of_lt_of_le one_pos hone
    have hq₀ : q.val ≠ 0 := Nat.ne_of_gt (units_pos_iff.mp hpos)
    rw [div, if_neg (Nat.ne_of_lt hp), if_neg (Nat.ne_of_lt hq), if_neg hq₀]
    refine decide_eq_true (lt_of_le_of_lt ?_ hp)
    exact nearest_le hpos (Nat.mul_le_mul_left _ hone)

end Rounding

end Binary64

/-- Whole milliseconds make whole seconds. -/
theorem Calendar.epochSeconds_isInteger {reading : Binary64} (h : reading.isFinite = true) :
    (epochSeconds reading).isInteger = true := by
  have hone : ∃ q : Fin (Binary64.top + 1), (1000 : Binary64) = .signed false q ∧ q.val < Binary64.top ∧
      Binary64.one ≤ Binary64.units q.val :=
    ⟨⟨Binary64.nearest 1000 1, Nat.lt_succ_of_le (Binary64.nearest_le_top _ _)⟩, rfl, by decide +kernel⟩
  obtain ⟨q, hq, hlt, hone⟩ := hone
  rw [epochSeconds, hq]
  exact Binary64.floor_isInteger (Binary64.div_isFinite h hlt hone)

end GovernedConfig
