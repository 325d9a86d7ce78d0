import Mathlib.Data.Int.DivMod
import Mathlib.Data.Rat.Floor
import MiniLisp.Division

/-!
The divisions of integers as roundings of the exact quotient, and dividing what has been divided
already.
-/

namespace MiniLisp.Division

def towardZero (q : ℚ) : ℤ :=
  if 0 ≤ q then ⌊q⌋ else ⌈q⌉

theorem towardZero_neg (q : ℚ) : towardZero (-q) = -towardZero q := by
  rcases lt_trichotomy q 0 with h | rfl | h
  · have hneg : 0 ≤ -q := by linarith
    simp only [towardZero, hneg, not_le.mpr h, if_true, if_false, Int.floor_neg]
  · simp [towardZero]
  · have hneg : ¬0 ≤ -q := by linarith
    simp only [towardZero, hneg, h.le, if_true, if_false, Int.ceil_neg]

theorem fdiv_eq_floor (a b : ℤ) : a.fdiv b = ⌊(a / b : ℚ)⌋ := by
  obtain ⟨n, rfl | rfl⟩ := b.eq_nat_or_neg
  · rw [Int.fdiv_eq_ediv_of_nonneg a (Int.natCast_nonneg n), Int.cast_natCast,
      Rat.floor_intCast_div_natCast]
  · have hpos := Rat.floor_intCast_div_natCast (-a) n
    rw [← Int.fdiv_eq_ediv_of_nonneg (-a) (Int.natCast_nonneg n)] at hpos
    rw [← Int.neg_fdiv_neg, neg_neg, ← hpos]
    push_cast
    rw [neg_div, div_neg]

theorem natCast_tdiv_eq_towardZero (m n : ℕ) : (m : ℤ).tdiv n = towardZero (m / n : ℚ) := by
  have hnonneg : (0 : ℚ) ≤ m / n := by positivity
  rw [towardZero, if_pos hnonneg, Int.tdiv_eq_ediv_of_nonneg (Int.natCast_nonneg m),
    Rat.floor_natCast_div_natCast]

theorem tdiv_eq_towardZero (a b : ℤ) : a.tdiv b = towardZero (a / b : ℚ) := by
  obtain ⟨m, rfl | rfl⟩ := a.eq_nat_or_neg <;> obtain ⟨n, rfl | rfl⟩ := b.eq_nat_or_neg
  · rw [natCast_tdiv_eq_towardZero, Int.cast_natCast, Int.cast_natCast]
  · rw [Int.tdiv_neg, natCast_tdiv_eq_towardZero, ← towardZero_neg]
    push_cast
    rw [div_neg]
  · rw [Int.neg_tdiv, natCast_tdiv_eq_towardZero, ← towardZero_neg]
    push_cast
    rw [neg_div]
  · rw [Int.neg_tdiv, Int.tdiv_neg, neg_neg, natCast_tdiv_eq_towardZero]
    push_cast
    rw [neg_div_neg_eq]

/-! ### Dividing twice -/

/-- Rounding toward zero in between makes no difference, whatever the signs are. -/
theorem tdiv_tdiv (a b c : ℤ) : (a.tdiv b).tdiv c = a.tdiv (b * c) := by
  obtain ⟨l, rfl | rfl⟩ := a.eq_nat_or_neg <;> obtain ⟨m, rfl | rfl⟩ := b.eq_nat_or_neg <;>
    obtain ⟨n, rfl | rfl⟩ := c.eq_nat_or_neg
  -- The signs come out of both sides, and what is left is a fact about natural numbers.
  all_goals
    simp only [Int.neg_tdiv, Int.tdiv_neg, neg_neg, neg_mul, mul_neg, ← Int.natCast_mul,
      ← Int.ofNat_tdiv, Nat.div_div_eq_div_mul]

/-- Rounding down in between makes no difference as long as the second divisor is positive. -/
theorem fdiv_fdiv (a b : ℤ) {c : ℤ} (hc : 0 < c) : (a.fdiv b).fdiv c = a.fdiv (b * c) := by
  rcases le_total 0 b with hb | hb
  · exact Int.fdiv_fdiv_eq_fdiv_mul a hb hc.le
  · have hneg := Int.fdiv_fdiv_eq_fdiv_mul (-a) (neg_nonneg.mpr hb) hc.le
    rwa [Int.neg_fdiv_neg, neg_mul, Int.neg_fdiv_neg] at hneg

end MiniLisp.Division
