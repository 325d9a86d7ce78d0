import Mathlib.Algebra.BigOperators.Group.List.Basic
import Mathlib.Data.List.Perm.Basic
import MiniLisp.Proofs.Primitive.Precedence

/-!
Sums and products. The arguments are combined from the left, but what comes out is the sum or the
product of the integers that they stand for. So the arguments may come in any order, and some of
them may be put together beforehand. Neither changes whether there is a result: there is one as soon
as every argument stands for an integer.
-/

namespace MiniLisp

namespace Arithmetic

variable {op : Arithmetic} {total : List ℤ → ℤ} {args : List Value} {r : Value}

theorem fold_eq_ok_iff :
    op.fold args = .ok r ↔ ∃ n ns, args.mapM Value.toInt = .ok (n :: ns) ∧
      (op.divides = true → 0 ∉ ns) ∧ r = .number (ns.foldl op.exact n) := by
  constructor
  · intro h
    obtain ⟨ns, hargs, hrest⟩ := bind_eq_ok_iff.mp h
    cases ns with
    | nil => cases hrest
    | cons n ns =>
        have hzero : op.divides = true → 0 ∉ ns := by
          intro hop hmem
          rw [fold_of_mapM hargs, meaningAll, foldlM_meaning_eq_none hop hmem] at h
          cases h
        rw [fold_of_mapM hargs, meaningAll, foldlM_meaning hzero] at h
        exact ⟨n, ns, hargs, hzero, (Except.ok.inj h).symm⟩
  · rintro ⟨n, ns, hargs, hzero, rfl⟩
    rw [fold_of_mapM hargs, meaningAll, foldlM_meaning hzero]
    rfl

/-- `op.Gathers total` says that `op` combines several integers to their `total`. -/
inductive Gathers : Arithmetic → (List ℤ → ℤ) → Prop where
  | add : Gathers add List.sum
  | mul : Gathers mul List.prod

namespace Gathers

theorem divides_eq_false (h : op.Gathers total) : op.divides = false := by
  cases h <;> rfl

theorem foldl_exact (h : op.Gathers total) (n : ℤ) (ns : List ℤ) :
    ns.foldl op.exact n = total (n :: ns) := by
  cases h with
  | add =>
      rw [List.sum_eq_foldl, List.foldl_cons, zero_add]
      rfl
  | mul =>
      rw [List.prod_eq_foldl, List.foldl_cons, one_mul]
      rfl

theorem total_eq_of_perm (h : op.Gathers total) {ms ns : List ℤ} (hperm : ms.Perm ns) :
    total ms = total ns := by
  cases h with
  | add => exact hperm.sum_eq
  | mul => exact hperm.prod_eq

theorem total_append (h : op.Gathers total) (ms ns : List ℤ) :
    total (ms ++ ns) = total [total ms, total ns] := by
  cases h <;> simp

theorem fold_eq_ok_iff_total (h : op.Gathers total) :
    op.fold args = .ok r ↔
      ∃ ns, args.mapM Value.toInt = .ok ns ∧ ns ≠ [] ∧ r = .number (total ns) := by
  rw [fold_eq_ok_iff]
  constructor
  · rintro ⟨n, ns, hargs, -, rfl⟩
    exact ⟨n :: ns, hargs, List.cons_ne_nil n ns, by rw [h.foldl_exact]⟩
  · rintro ⟨ns, hargs, hne, rfl⟩
    obtain ⟨n, ns, rfl⟩ := List.exists_cons_of_ne_nil hne
    refine ⟨n, ns, hargs, ?_, by rw [h.foldl_exact]⟩
    simp [h.divides_eq_false]

theorem fold_pair (h : op.Gathers total) (a b : ℤ) :
    op.fold [.number a, .number b] = .ok (.number (total [a, b])) :=
  h.fold_eq_ok_iff_total.mpr ⟨[a, b], mapM_toInt_number [a, b], List.cons_ne_nil a [b], rfl⟩

theorem fold_perm (h : op.Gathers total) {args' : List Value} (hperm : args'.Perm args)
    (hfold : op.fold args = .ok r) : op.fold args' = .ok r := by
  obtain ⟨ns, hargs, hne, rfl⟩ := h.fold_eq_ok_iff_total.mp hfold
  -- The integers change places as the arguments do.
  obtain ⟨ms, hargs', hms⟩ := List.perm_comp_forall₂ hperm (mapM_eq_ok_iff.mp hargs)
  refine h.fold_eq_ok_iff_total.mpr ⟨ms, mapM_eq_ok_iff.mpr hargs', ?_, ?_⟩
  · rintro rfl
    exact hne hms.nil_eq.symm
  · rw [h.total_eq_of_perm hms]

theorem fold_append_iff (h : op.Gathers total) {xs ys : List Value} (hxs : xs ≠ []) (hys : ys ≠ []) :
    op.fold (xs ++ ys) = .ok r ↔
      ∃ p q, op.fold xs = .ok p ∧ op.fold ys = .ok q ∧ op.fold [p, q] = .ok r := by
  constructor
  · intro hfold
    obtain ⟨ns, hargs, -, rfl⟩ := h.fold_eq_ok_iff_total.mp hfold
    obtain ⟨ms, ks, hms, hks, rfl⟩ := mapM_append_eq_ok_iff.mp hargs
    have hp := h.fold_eq_ok_iff_total.mpr ⟨ms, hms, ne_nil_of_mapM hxs hms, rfl⟩
    have hq := h.fold_eq_ok_iff_total.mpr ⟨ks, hks, ne_nil_of_mapM hys hks, rfl⟩
    refine ⟨_, _, hp, hq, ?_⟩
    rw [h.fold_pair, h.total_append]
  · rintro ⟨p, q, hp, hq, hr⟩
    obtain ⟨ms, hms, hne, rfl⟩ := h.fold_eq_ok_iff_total.mp hp
    obtain ⟨ks, hks, -, rfl⟩ := h.fold_eq_ok_iff_total.mp hq
    rw [h.fold_pair, ← h.total_append] at hr
    have hargs := mapM_append_eq_ok_iff.mpr ⟨ms, ks, hms, hks, rfl⟩
    exact h.fold_eq_ok_iff_total.mpr
      ⟨ms ++ ks, hargs, List.append_ne_nil_of_left_ne_nil hne ks, (Except.ok.inj hr).symm⟩

theorem exists_fold_iff (h : op.Gathers total) (hne : args ≠ []) :
    (∃ r, op.fold args = .ok r) ↔ ∀ v ∈ args, ∃ n, v.toInt = .ok n := by
  rw [← exists_mapM_eq_ok_iff]
  constructor
  · rintro ⟨r, hfold⟩
    obtain ⟨ns, hargs, -⟩ := h.fold_eq_ok_iff_total.mp hfold
    exact ⟨ns, hargs⟩
  · rintro ⟨ns, hargs⟩
    exact ⟨_, h.fold_eq_ok_iff_total.mpr ⟨ns, hargs, ne_nil_of_mapM hne hargs, rfl⟩⟩

end Gathers

end Arithmetic

/-- Sums and products do not depend on the order of the arguments or on their grouping. Arguments
that have a result have it in any order, and two rows of arguments have the result together that
their two results have. There is a result when every argument stands for an integer. -/
theorem fold_regroups {op : Arithmetic} (hop : op = .add ∨ op = .mul) :
    (∀ (xs ys : List Value) (r : Value), ys.Perm xs → op.fold xs = .ok r → op.fold ys = .ok r) ∧
    (∀ (xs ys : List Value) (r : Value), xs ≠ [] → ys ≠ [] →
      (op.fold (xs ++ ys) = .ok r ↔
        ∃ p q, op.fold xs = .ok p ∧ op.fold ys = .ok q ∧ op.fold [p, q] = .ok r)) ∧
    ∀ xs : List Value, xs ≠ [] →
      ((∃ r, op.fold xs = .ok r) ↔ ∀ v ∈ xs, ∃ n, v.toInt = .ok n) := by
  obtain ⟨total, h⟩ : ∃ total, op.Gathers total := by
    rcases hop with rfl | rfl
    · exact ⟨_, .add⟩
    · exact ⟨_, .mul⟩
  exact ⟨fun _ _ _ => h.fold_perm, fun _ _ _ => h.fold_append_iff, fun _ => h.exists_fold_iff⟩

/-- Texts and lists change places with numbers, and are put together first. -/
theorem fold_regroups_mixed :
    Arithmetic.mul.fold [.string " -3 apples", .list [.number 2], .number 5] =
      .ok (.number (-30)) ∧
    Arithmetic.mul.fold [.number 5, .list [.number 2], .string " -3 apples"] =
      .ok (.number (-30)) ∧
    ∃ q, Arithmetic.mul.fold [.list [.number 2], .string " -3 apples"] = .ok q ∧
      Arithmetic.mul.fold [.number 5, q] = .ok (.number (-30)) := by
  have hfold : Arithmetic.mul.fold [.string " -3 apples", .list [.number 2], .number 5] =
    .ok (.number (-30)) := rfl
  obtain ⟨hperm, happend, -⟩ := @fold_regroups .mul (.inr rfl)
  have hback := hperm _ _ _ (List.reverse_perm _) hfold
  obtain ⟨p, q, hp, hq, hpq⟩ := (happend [.number 5] [.list [.number 2], .string " -3 apples"] _
    (List.cons_ne_nil _ _) (List.cons_ne_nil _ _)).mp hback
  obtain rfl : .number 5 = p := Except.ok.inj hp
  exact ⟨hfold, hback, q, hq, hpq⟩

-- A difference depends on the order.
example : Arithmetic.sub.fold [.number 3, .number 2, .number 1] = .ok (.number 0) ∧
    Arithmetic.sub.fold [.number 1, .number 2, .number 3] = .ok (.number (-4)) := by
  exact ⟨rfl, rfl⟩

end MiniLisp
