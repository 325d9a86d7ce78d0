import Mathlib.Algebra.BigOperators.Ring.List
import MiniLisp.Proofs.Primitive.Precedence

/-!
Chains of subtractions and divisions. Taking away one number after another takes away their sum, and
dividing by one number after another divides by their product: the rounding of the single steps does
not add up. Where quotients are rounded down this needs the divisors after the first to be positive.
-/

namespace MiniLisp

namespace Arithmetic

theorem fold_numbers {op : Arithmetic} {ns : List ℤ} (h : op.divides = true → 0 ∉ ns) (n : ℤ) :
    op.fold ((n :: ns).map .number) = .ok (.number (ns.foldl op.exact n)) := by
  rw [fold_of_mapM (mapM_toInt_number (n :: ns)), meaningAll, foldlM_meaning h]
  rfl

theorem foldl_sub (n : ℤ) (ns : List ℤ) : ns.foldl sub.exact n = n - ns.sum := by
  induction ns generalizing n with
  | nil => simp
  | cons m ns ih =>
      rw [List.foldl_cons, ih, List.sum_cons]
      change n - m - ns.sum = _
      omega

/-- What holds of dividing twice holds of a chain. -/
theorem foldl_eq_of_collapses {f : ℤ → ℤ → ℤ} {ns : List ℤ}
    (hf : ∀ m ∈ ns, ∀ a b, f (f a b) m = f a (b * m)) (a b : ℤ) :
    ns.foldl f (f a b) = f a (b * ns.prod) := by
  induction ns generalizing b with
  | nil => simp
  | cons m ns ih =>
      rw [List.foldl_cons, hf m List.mem_cons_self,
        ih (fun k hk => hf k (List.mem_cons_of_mem m hk)), List.prod_cons, mul_assoc]

theorem exact_quotient (a b : ℤ) : quotient.exact a b = a.tdiv b :=
  (Division.tdiv_eq_towardZero a b).symm

theorem exact_div (a b : ℤ) : div.exact a b = a.fdiv b :=
  (Division.fdiv_eq_floor a b).symm

theorem foldl_quotient (n m : ℤ) (ns : List ℤ) :
    (m :: ns).foldl quotient.exact n = n.tdiv (m :: ns).prod := by
  rw [List.foldl_cons, foldl_eq_of_collapses, exact_quotient, List.prod_cons]
  intro k _ a b
  rw [exact_quotient, exact_quotient, exact_quotient, Division.tdiv_tdiv]

theorem foldl_div {ns : List ℤ} (h : ∀ k ∈ ns, 0 < k) (n m : ℤ) :
    (m :: ns).foldl div.exact n = n.fdiv (m :: ns).prod := by
  rw [List.foldl_cons, foldl_eq_of_collapses, exact_div, List.prod_cons]
  intro k hk a b
  rw [exact_div, exact_div, exact_div, Division.fdiv_fdiv a b (h k hk)]

end Arithmetic

/-- Chains collapse: subtracting several numbers is subtracting their sum, and dividing by several
numbers is dividing by their product. Rounding toward zero this holds for all signs, rounding down
if all divisors after the first are positive. -/
theorem fold_chain_collapses (a b : ℤ) (bs : List ℤ) :
    Arithmetic.sub.fold ((a :: b :: bs).map .number) = .ok (.number (a - (b :: bs).sum)) ∧
    ((∀ d ∈ b :: bs, d ≠ 0) → ∃ q, Division.truncQuotient? a (b :: bs).prod = some q ∧
      Arithmetic.quotient.fold ((a :: b :: bs).map .number) = .ok (.number q)) ∧
    (b ≠ 0 → (∀ d ∈ bs, 0 < d) → ∃ q, Division.floorQuotient? a (b :: bs).prod = some q ∧
      Arithmetic.div.fold ((a :: b :: bs).map .number) = .ok (.number q)) := by
  refine ⟨?_, ?_, ?_⟩
  · rw [Arithmetic.fold_numbers (by simp [Arithmetic.divides]), Arithmetic.foldl_sub]
  · intro hne
    have hzero : 0 ∉ b :: bs := fun hmem => hne 0 hmem rfl
    refine ⟨_, Division.unlessZero_of_ne (List.prod_ne_zero hzero) _ a, ?_⟩
    rw [Arithmetic.fold_numbers fun _ => hzero, Arithmetic.foldl_quotient]
  · intro hb hpos
    have hzero : 0 ∉ b :: bs := by
      rw [List.mem_cons, not_or]
      exact ⟨hb.symm, fun hmem => lt_irrefl 0 (hpos 0 hmem)⟩
    refine ⟨_, Division.unlessZero_of_ne (List.prod_ne_zero hzero) _ a, ?_⟩
    rw [Arithmetic.fold_numbers fun _ => hzero, Arithmetic.foldl_div hpos]

theorem fold_chain_collapses_negative :
    (∀ d ∈ [-2, 3, 2], d ≠ 0) ∧ (-2 : ℤ) ≠ 0 ∧ (∀ d ∈ [3, 2], (0 : ℤ) < d) ∧
    Arithmetic.sub.fold [.number 29, .number (-2), .number 3, .number 2] = .ok (.number 26) ∧
    Arithmetic.quotient.fold [.number 29, .number (-2), .number 3, .number 2] =
      .ok (.number (-2)) ∧
    Arithmetic.div.fold [.number 29, .number (-2), .number 3, .number 2] = .ok (.number (-3)) := by
  have hne : ∀ d ∈ [-2, 3, 2], d ≠ (0 : ℤ) := by decide
  have hpos : ∀ d ∈ [3, 2], (0 : ℤ) < d := by decide
  obtain ⟨hsub, hquotient, hdiv⟩ := fold_chain_collapses 29 (-2) [3, 2]
  obtain ⟨q, hq, hquotient⟩ := hquotient hne
  obtain ⟨p, hp, hdiv⟩ := hdiv (by decide) hpos
  obtain rfl : -2 = q := Option.some.inj hq
  obtain rfl : -3 = p := Option.some.inj hp
  exact ⟨hne, by decide, hpos, hsub, hquotient, hdiv⟩

-- Without the condition on the later divisors the rounding shows.
example : Arithmetic.div.fold [.number 1, .number 2, .number (-1)] = .ok (.number 0) ∧
    Division.floorQuotient? 1 (2 * -1) = some (-1) := by
  refine ⟨rfl, rfl⟩

end MiniLisp
