import Mathlib.Algebra.Order.Group.Unbundled.Int
import Mathlib.Algebra.Order.Ring.Abs
import Mathlib.Data.Int.DivMod
import Mathlib.Tactic.Ring
import MiniLisp.Primitive.Arithmetic

/-!
Quotients together with their remainders. What is left of a division lies on the side of the divisor
when the quotient is rounded down, and on the side of the dividend when it is rounded toward zero.
Either condition leaves one pair of integers only. The two pairs are the same unless the remainder
has to change sides, and it does so by one divisor.
-/

namespace MiniLisp

namespace Division

variable {a b q r : ℤ}

structure Floors (a b q r : ℤ) : Prop where
  eq : a = q * b + r
  between : (0 ≤ r ∧ r < b) ∨ (b < r ∧ r ≤ 0)

/-- `a` is `q` times `b` and a remainder that is smaller than `b`, signs aside, and is zero or has
the sign of `a`. -/
structure Truncates (a b q r : ℤ) : Prop where
  eq : a = q * b + r
  small : |r| < |b|
  sign : r = 0 ∨ r.sign = a.sign

/-! ### One pair each -/

theorem floors_iff (hb : b ≠ 0) : Floors a b q r ↔ q = a.fdiv b ∧ r = a.fmod b := by
  have hfloors : Floors a b q r ↔ r + b * q = a ∧ ((0 ≤ r ∧ r < b) ∨ (b < r ∧ r ≤ 0)) := by
    rw [mul_comm, add_comm]
    exact ⟨fun h => ⟨h.eq.symm, h.between⟩, fun h => ⟨h.1.symm, h.2⟩⟩
  rw [hfloors, @eq_comm _ q, @eq_comm _ r]
  rcases lt_or_gt_of_ne hb with hneg | hpos
  · rw [Int.fdiv_fmod_unique' hneg]
    omega
  · rw [Int.fdiv_fmod_unique hpos]
    omega

theorem truncates_tdiv (a : ℤ) (hb : b ≠ 0) : Truncates a b (a.tdiv b) (a.tmod b) := by
  refine ⟨(Int.tdiv_mul_add_tmod a b).symm, ?_, ?_⟩
  · rw [Int.abs_eq_natAbs, Int.abs_eq_natAbs, Int.natAbs_tmod, Int.ofNat_lt]
    exact Nat.mod_lt _ (Int.natAbs_pos.mpr hb)
  · rw [Int.sign_tmod, ← Int.sign_eq_zero_iff_zero, Int.sign_tmod]
    split
    · exact .inl rfl
    · exact .inr rfl

theorem truncates_iff (hb : b ≠ 0) : Truncates a b q r ↔ q = a.tdiv b ∧ r = a.tmod b := by
  constructor
  · rintro ⟨heq, hsmall, hsign⟩
    have heq' : r + b * q = a := by
      rw [heq]
      ring
    rcases le_total 0 a with ha | ha
    · obtain ⟨hq, hr⟩ := (Int.tdiv_tmod_unique ha hb).mpr ⟨heq', by grind, by grind⟩
      exact ⟨hq.symm, hr.symm⟩
    · obtain ⟨hq, hr⟩ := (Int.tdiv_tmod_unique' ha hb).mpr ⟨heq', by grind, by grind⟩
      exact ⟨hq.symm, hr.symm⟩
  · rintro ⟨rfl, rfl⟩
    exact truncates_tdiv a hb

/-! ### From one pair to the other -/

namespace Truncates

theorem eq_zero_iff (h : Truncates a b q r) : r = 0 ↔ b ∣ a := by
  rw [h.eq, Int.dvd_add_right (Dvd.intro_left q rfl)]
  constructor
  · rintro rfl
    exact dvd_zero b
  · intro hdvd
    exact Int.eq_zero_of_abs_lt_dvd ((abs_dvd b r).mpr hdvd) h.small

/-- The remainder is on the side of the divisor if it is zero or the signs agree. -/
theorem onSide_iff (h : Truncates a b q r) :
    r = 0 ∨ r.sign = b.sign ↔ b ∣ a ∨ a.sign = b.sign := by
  rw [← h.eq_zero_iff]
  rcases h.sign with hzero | hsign
  · simp [hzero]
  · rw [hsign]

theorem floors (h : Truncates a b q r) (hside : r = 0 ∨ r.sign = b.sign) : Floors a b q r := by
  refine ⟨h.eq, ?_⟩
  have hsmall := h.small
  grind

/-- A remainder on the other side comes over by one divisor. -/
theorem floors_sub_one (h : Truncates a b q r) (hside : ¬(r = 0 ∨ r.sign = b.sign)) :
    Floors a b (q - 1) (r + b) := by
  refine ⟨?_, ?_⟩
  · rw [h.eq]
    ring
  · have hsmall := h.small
    grind

end Truncates

theorem fdiv_fmod_eq_iff (hb : b ≠ 0) :
    a.fdiv b = a.tdiv b ∧ a.fmod b = a.tmod b ↔ b ∣ a ∨ a.sign = b.sign := by
  have h := truncates_tdiv a hb
  rw [← h.onSide_iff]
  constructor
  · rintro ⟨hq, -⟩
    by_contra hside
    have hbelow := (floors_iff hb).mp (h.floors_sub_one hside)
    omega
  · intro hside
    obtain ⟨hq, hr⟩ := (floors_iff hb).mp (h.floors hside)
    exact ⟨hq.symm, hr.symm⟩

theorem fdiv_fmod_of_sign_ne (hb : b ≠ 0) (h : ¬(b ∣ a ∨ a.sign = b.sign)) :
    a.tdiv b = a.fdiv b + 1 ∧ a.fmod b = a.tmod b + b := by
  have htrunc := truncates_tdiv a hb
  rw [← htrunc.onSide_iff] at h
  have hbelow := (floors_iff hb).mp (htrunc.floors_sub_one h)
  omega

end Division

open Division Arithmetic

/-- The divisions go together in pairs. Nothing can be divided by zero, and the error has the name
of the operation. For any other divisor the quotient rounded down and its remainder are the only
pair with a remainder on the side of the divisor, and the quotient rounded toward zero and its
remainder the only one with a small remainder on the side of the dividend. The pairs are the same
when the division comes out even or the signs agree, and otherwise differ by one and by the
divisor. -/
theorem divisions_in_pairs (a b : ℤ) :
    (b = 0 →
      (floorQuotient? a b = none ∧ floorRemainder? a b = none ∧
        truncQuotient? a b = none ∧ truncRemainder? a b = none) ∧
      div.combine a b = .error (.divisionByZero "/") ∧
      mod.combine a b = .error (.divisionByZero "mod") ∧
      quotient.combine a b = .error (.divisionByZero "quotient") ∧
      remainder.combine a b = .error (.divisionByZero "remainder")) ∧
    (b ≠ 0 → ∃ q r q' r',
      (floorQuotient? a b = some q ∧ floorRemainder? a b = some r ∧
        ∀ x y, Floors a b x y ↔ x = q ∧ y = r) ∧
      (truncQuotient? a b = some q' ∧ truncRemainder? a b = some r' ∧
        ∀ x y, Truncates a b x y ↔ x = q' ∧ y = r') ∧
      (q = q' ∧ r = r' ↔ b ∣ a ∨ a.sign = b.sign) ∧
      (¬(b ∣ a ∨ a.sign = b.sign) → q' = q + 1 ∧ r = r' + b) ∧
      div.combine a b = .ok q ∧ mod.combine a b = .ok r ∧
      quotient.combine a b = .ok q' ∧ remainder.combine a b = .ok r') := by
  refine ⟨?_, ?_⟩
  · rintro rfl
    exact ⟨⟨rfl, rfl, rfl, rfl⟩, rfl, rfl, rfl, rfl⟩
  · intro hb
    have hfq : floorQuotient? a b = some (a.fdiv b) := unlessZero_of_ne hb _ a
    have hfr : floorRemainder? a b = some (a.fmod b) := unlessZero_of_ne hb _ a
    have htq : truncQuotient? a b = some (a.tdiv b) := unlessZero_of_ne hb _ a
    have htr : truncRemainder? a b = some (a.tmod b) := unlessZero_of_ne hb _ a
    refine ⟨_, _, _, _, ⟨hfq, hfr, fun _ _ => floors_iff hb⟩,
      ⟨htq, htr, fun _ _ => truncates_iff hb⟩, fdiv_fmod_eq_iff hb, fdiv_fmod_of_sign_ne hb, ?_⟩
    simp only [combine, combine?, hfq, hfr, htq, htr, and_self]

/-- Below zero and over zero the pairs differ. -/
theorem divisions_in_pairs_negative :
    Arithmetic.mod.combine (-7) 0 = .error (.divisionByZero "mod") ∧ (2 : ℤ) ≠ 0 ∧
    ∃ q r q' r', Arithmetic.div.combine (-7) 2 = .ok q ∧ Arithmetic.mod.combine (-7) 2 = .ok r ∧
      Arithmetic.quotient.combine (-7) 2 = .ok q' ∧ Arithmetic.remainder.combine (-7) 2 = .ok r' ∧
      q' = q + 1 ∧ r = r' + 2 := by
  obtain ⟨hzero, -⟩ := divisions_in_pairs (-7) 0
  obtain ⟨-, hpairs⟩ := divisions_in_pairs (-7) 2
  obtain ⟨-, -, hmod, -⟩ := hzero rfl
  obtain ⟨q, r, q', r', -, -, -, hdiffer, hq, hr, hq', hr'⟩ := hpairs (by decide)
  exact ⟨hmod, by decide, q, r, q', r', hq, hr, hq', hr', hdiffer (by decide)⟩

end MiniLisp
