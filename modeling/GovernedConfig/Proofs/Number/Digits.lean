import Mathlib.Algebra.Order.Ring.Nat
import Mathlib.Data.List.TakeDrop
import GovernedConfig.Number.Decimal

/-! # Rows of digits

What rows of digits denote, with zeros in front of them or behind them, and how the digits of a whole
number are taken from the front of a text.
-/

namespace GovernedConfig

def IsDigits (cs : List Char) : Prop := ∀ c ∈ cs, c.isDigit = true

section Rows

variable {xs ys : List Char}

theorem IsDigits.append (hx : IsDigits xs) (hy : IsDigits ys) : IsDigits (xs ++ ys) := by
  intro c hc
  rcases List.mem_append.mp hc with hc | hc
  · exact hx c hc
  · exact hy c hc

theorem IsDigits.of_prefix (h : IsDigits (xs ++ ys)) : IsDigits xs :=
  fun c hc => h c (List.mem_append_left ys hc)

theorem IsDigits.of_suffix (h : IsDigits (xs ++ ys)) : IsDigits ys :=
  fun c hc => h c (List.mem_append_right xs hc)

theorem isDigits_zeros (k : Nat) : IsDigits (List.replicate k '0') := by
  intro c hc
  rw [List.eq_of_mem_replicate hc]
  rfl

theorem isDigits_toDigits (n : Nat) : IsDigits (Nat.toDigits 10 n) :=
  fun _ hc => Nat.isDigit_of_mem_toDigits (by decide) (by decide) hc

theorem span_digits (hx : IsDigits xs) (hy : ∀ c ∈ ys.head?, c.isDigit = false) :
    (xs ++ ys).span Char.isDigit = (xs, ys) := by
  rw [List.span_eq_takeWhile_dropWhile]
  induction xs with
  | nil =>
    cases ys with
    | nil => rfl
    | cons c ys =>
      have hc : c.isDigit = false := hy c rfl
      simp [hc]
  | cons c xs ih =>
    have hc : c.isDigit = true := hx c (by simp)
    have hrest := ih fun d hd => hx d (List.mem_cons_of_mem c hd)
    rw [Prod.mk.injEq] at hrest
    simp [hc, hrest.1, hrest.2]

end Rows

namespace Decimal

variable {xs ys : List Char}

theorem valueOf_eq (h : IsDigits xs) : valueOf 10 xs = Nat.ofDigitChars 10 xs 0 := by
  have hall : ∀ n, xs.foldl (fun n c => n * 10 + valueOf.digit c) n = Nat.ofDigitChars 10 xs n := by
    induction xs with
    | nil => simp
    | cons c xs ih =>
      intro n
      have hc : valueOf.digit c = c.toNat - '0'.toNat := by rw [valueOf.digit, if_pos (h c (by simp))]
      rw [List.foldl_cons, Nat.ofDigitChars_cons, hc, Nat.mul_comm,
        ih fun d hd => h d (List.mem_cons_of_mem c hd)]
  exact hall 0

theorem valueOf_append (hx : IsDigits xs) (hy : IsDigits ys) :
    valueOf 10 (xs ++ ys) = valueOf 10 xs * 10 ^ ys.length + valueOf 10 ys := by
  rw [valueOf_eq (hx.append hy), valueOf_eq hx, valueOf_eq hy, Nat.ofDigitChars_append,
    Nat.ofDigitChars_eq_ofDigitChars_zero, Nat.mul_comm]

theorem valueOf_zeros (k : Nat) : valueOf 10 (List.replicate k '0') = 0 := by
  rw [valueOf_eq (isDigits_zeros k), Nat.ofDigitChars_replicate_zero, Nat.mul_zero]

theorem valueOf_toDigits (n : Nat) : valueOf 10 (Nat.toDigits 10 n) = n := by
  rw [valueOf_eq (isDigits_toDigits n), Nat.ofDigitChars_ten_toDigits]

theorem valueOf_zeros_append (k : Nat) (h : IsDigits xs) :
    valueOf 10 (List.replicate k '0' ++ xs) = valueOf 10 xs := by
  rw [valueOf_append (isDigits_zeros k) h, valueOf_zeros, Nat.zero_mul, Nat.zero_add]

theorem valueOf_append_zeros (k : Nat) (h : IsDigits xs) :
    valueOf 10 (xs ++ List.replicate k '0') = valueOf 10 xs * 10 ^ k := by
  rw [valueOf_append h (isDigits_zeros k), valueOf_zeros, List.length_replicate, Nat.add_zero]

end Decimal

theorem digitChar_ne_zero {n : Nat} (h : n ≠ 0) (hn : n < 10) : Nat.digitChar n ≠ '0' := by
  have hall : ∀ n < 10, n ≠ 0 → Nat.digitChar n ≠ '0' := by decide
  exact hall n hn h

theorem head?_toDigits_ne {n : Nat} (h : n ≠ 0) : (Nat.toDigits 10 n).head? ≠ some '0' := by
  induction n using Nat.strongRecOn with
  | ind n ih =>
    rw [Nat.toDigits_eq_if (by decide)]
    split
    · rename_i hn
      simpa using digitChar_ne_zero h hn
    · rename_i hn
      have hq : n / 10 ≠ 0 := by omega
      obtain ⟨d, ds, hd⟩ := List.exists_cons_of_ne_nil (Nat.toDigits_ne_nil (n := n / 10) (b := 10))
      have hrest := ih (n / 10) (by omega) hq
      rw [hd] at hrest ⊢
      exact hrest

theorem exists_zeros (ds : List Char) :
    ∃ k, ds = (ds.reverse.dropWhile (· == '0')).reverse ++ List.replicate k '0' := by
  refine ⟨(ds.reverse.takeWhile (· == '0')).length, ?_⟩
  have hzeros : ds.reverse.takeWhile (· == '0') =
      List.replicate (ds.reverse.takeWhile (· == '0')).length '0' := by
    rw [List.eq_replicate_iff]
    refine ⟨rfl, fun c hc => ?_⟩
    simpa using List.all_eq_true.mp List.all_takeWhile c hc
  have hsplit := congrArg List.reverse (List.takeWhile_append_dropWhile (p := (· == '0')) (l := ds.reverse))
  rw [List.reverse_append, List.reverse_reverse, hzeros, List.reverse_replicate] at hsplit
  exact hsplit.symm

end GovernedConfig
