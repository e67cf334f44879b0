import Mathlib.Algebra.Order.Field.Power
import Mathlib.Algebra.Order.Ring.Int
import Mathlib.Data.Rat.Cast.Order
import Mathlib.Tactic.Positivity
import ServerUi.Decimal.Binary

/-! # Words and floats as numbers

The words with a sign are closed under remainders, and under quotients but for one: the least word
divided by minus one.  A finite float is a rational number, and `whole?` finds it if it is whole
(`whole?_eq_some_iff`).
-/

namespace ServerUi

/-! ## Words under division -/

theorem fitsSigned_iff {n : Int} : fitsSigned n = true ↔ -2 ^ 63 ≤ n ∧ n < 2 ^ 63 := by
  have low : Int64.minValue.toInt = -2 ^ 63 := rfl
  have high : Int64.maxValue.toInt = 2 ^ 63 - 1 := rfl
  rw [fitsSigned, Bool.and_eq_true, decide_eq_true_eq, decide_eq_true_eq, low, high,
    Int.le_sub_one_iff]

theorem isSome_int64? {n : Int} : (int64? n).isSome = true ↔ fitsSigned n = true := by
  rw [Option.isSome_iff_ne_none, ne_eq, int64?_eq_none_iff, not_not]

/-- Only the least word divided by minus one leaves the words. -/
theorem fitsSigned_tdiv {a b : Int} (fits : fitsSigned a = true) (nonzero : b ≠ 0) :
    fitsSigned (a.tdiv b) = true ↔ ¬ (a = -2 ^ 63 ∧ b = -1) := by
  rw [fitsSigned_iff] at fits ⊢
  have size : (a.tdiv b).natAbs = a.natAbs / b.natAbs := Int.natAbs_tdiv a b
  constructor
  · rintro ⟨-, below⟩ ⟨rfl, rfl⟩
    exact absurd below (by decide)
  · intro other
    by_cases unit : b.natAbs = 1
    · rcases Int.natAbs_eq_iff.mp unit with rfl | rfl
      · rw [Int.natCast_one, Int.tdiv_one]
        exact fits
      · rw [Int.natCast_one, Int.tdiv_neg, Int.tdiv_one]
        omega
    · have halved : a.natAbs / b.natAbs ≤ a.natAbs / 2 :=
        Nat.div_le_div_left (by omega) (by decide)
      omega

/-- A remainder lies between zero and the dividend. -/
theorem fitsSigned_tmod {a : Int} (b : Int) (fits : fitsSigned a = true) :
    fitsSigned (a.tmod b) = true := by
  rw [fitsSigned_iff] at fits ⊢
  have size : (a.tmod b).natAbs = a.natAbs % b.natAbs := Int.natAbs_tmod a b
  have smaller := Nat.mod_le a.natAbs b.natAbs
  rcases Int.le_total 0 a with positive | negative
  · have := Int.tmod_nonneg b positive
    omega
  · have := Int.tmod_nonneg b (Int.neg_nonneg_of_nonpos negative)
    rw [Int.neg_tmod] at this
    omega

end ServerUi

/-! ## The exact value of a float -/

namespace ServerUi.Decimal

/-- The rational number that a size stands for. -/
def Binary.value (b : Binary) : ℚ := b.significand * 2 ^ b.exponent

/-- The rational number that a finite float stands for. -/
def exact (x : Float) : ℚ :=
  if isNegative x then -(Binary.ofFloat x).value else (Binary.ofFloat x).value

theorem Binary.value_nonneg (b : Binary) : 0 ≤ b.value := by
  unfold Binary.value
  positivity

theorem Binary.whole?_eq_some_iff {b : Binary} {n : Nat} : b.whole? = some n ↔ b.value = n := by
  obtain ⟨m, e, narrow⟩ := b
  -- an exponent from zero on multiplies, so there is always a whole number; a negative one divides
  by_cases h : 0 ≤ e
  · obtain ⟨k, rfl⟩ := Int.eq_ofNat_of_zero_le h
    have value : (m : ℚ) * 2 ^ k = n ↔ m * 2 ^ k = n := by exact_mod_cast Iff.rfl
    simp only [Binary.whole?, Binary.value, h, if_true, Option.some.injEq, Int.toNat_natCast,
      zpow_natCast, Nat.pow_eq, value]
  · obtain ⟨k, hk⟩ := Int.eq_ofNat_of_zero_le (show 0 ≤ -e by omega)
    obtain rfl : e = -(k : Int) := by omega
    have unit : (0 : ℚ) < 2 ^ k := by positivity
    have value : (m : ℚ) * 2 ^ (-(k : Int)) = n ↔ m = n * 2 ^ k := by
      rw [zpow_neg, zpow_natCast, ← div_eq_mul_inv, div_eq_iff unit.ne']
      exact_mod_cast Iff.rfl
    have gap : 0 < 2 ^ k := by positivity
    simp only [Binary.whole?, Binary.value, h, if_false, value, Int.neg_neg, Int.toNat_natCast,
      Nat.pow_eq, Option.ite_none_right_eq_some, Option.some.injEq]
    constructor
    · rintro ⟨divides, rfl⟩
      exact (Nat.div_mul_cancel (Nat.dvd_of_mod_eq_zero divides)).symm
    · rintro rfl
      exact ⟨Nat.mul_mod_left n _, Nat.mul_div_cancel n gap⟩

theorem whole?_eq_some_iff {x : Float} {n : Int} :
    whole? x = some n ↔ x.isFinite = true ∧ exact x = n := by
  have size := (Binary.ofFloat x).value_nonneg
  simp only [whole?, Option.ite_none_right_eq_some]
  refine and_congr_right fun _ => ?_
  trans ∃ m : Nat, (Binary.ofFloat x).value = m ∧ (if isNegative x then -(m : Int) else m) = n
  · simp [← Binary.whole?_eq_some_iff, Option.bind_eq_some_iff]
  unfold exact
  constructor
  · rintro ⟨m, hm, rfl⟩
    rw [hm]
    split <;> simp
  · split
    · intro h
      have sign : n ≤ 0 := by
        have : (n : ℚ) ≤ 0 := by rw [← h]; exact neg_nonpos.mpr size
        exact_mod_cast this
      obtain ⟨m, hm⟩ := Int.eq_ofNat_of_zero_le (show 0 ≤ -n by omega)
      refine ⟨m, ?_, by omega⟩
      rw [← neg_neg (Binary.value _), h, ← Int.cast_neg, hm, Int.cast_natCast]
    · intro h
      have sign : 0 ≤ n := by
        have : (0 : ℚ) ≤ n := h ▸ size
        exact_mod_cast this
      obtain ⟨m, rfl⟩ := Int.eq_ofNat_of_zero_le sign
      exact ⟨m, by rw [h, Int.cast_natCast], rfl⟩

end ServerUi.Decimal
