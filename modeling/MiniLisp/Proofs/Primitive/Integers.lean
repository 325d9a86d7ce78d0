import Mathlib.Logic.Function.Iterate
import MiniLisp.Proofs.Decimal
import MiniLisp.Proofs.Primitive.Precedence

/-!
What arithmetic and the comparisons of numbers see of their arguments. Nothing but the integers that
the arguments stand for enters into a result, and an error shows the first argument that stands for
none without the lists around it. So it makes no difference whether a number is given as such, as a
text that begins with it, or inside any number of lists of one element.
-/

namespace MiniLisp

/-! ### Values that stand for the same integer -/

namespace Value

def wrapped (v : Value) : Value :=
  list [v]

theorem toInt_iterate_wrapped (k : ℕ) (v : Value) : (wrapped^[k] v).toInt = v.toInt := by
  induction k with
  | zero => rfl
  | succ k ih => rw [Function.iterate_succ_apply', wrapped, toInt, ih]

theorem exists_eq_iterate_wrapped (v : Value) : ∃ k, v = wrapped^[k] v.unwrapped := by
  fun_induction unwrapped v with
  | case1 v ih =>
      obtain ⟨k, hk⟩ := ih
      refine ⟨k + 1, ?_⟩
      rw [Function.iterate_succ_apply', ← hk, wrapped]
  | case2 v _ => exact ⟨0, rfl⟩

theorem unwrapped_ne_wrapped (v w : Value) : v.unwrapped ≠ w.wrapped := by
  fun_induction unwrapped v with
  | case1 v ih => exact ih
  | case2 v hlist => exact hlist w

/-- `Disguises v w` says that `w` is `v` inside lists of one element, or a text in which the number
`v` stands behind white space only and in front of no further digit. -/
inductive Disguises : Value → Value → Prop where
  | wrapped (v : Value) (k : ℕ) : Disguises v (wrapped^[k] v)
  | text {space rest : String} (n : Int) :
      (∀ c ∈ space.toList, Text.isSpace c = true) →
      (∀ c ∈ rest.toList.head?, c.isDigit = false) →
        Disguises (number n) (string (space ++ Decimal.text n ++ rest))

theorem Disguises.toInt_eq {v w : Value} (h : Disguises v w) : w.toInt = v.toInt := by
  cases h with
  | wrapped _ k => exact toInt_iterate_wrapped k v
  | text n hspace hrest =>
      have hread := Decimal.leadingInt?_space_append hspace hrest n
      refine (Decimal.toInt_string ?_).trans (by rw [toInt])
      rwa [String.toList_append, String.toList_append, Decimal.text, String.toList_ofList]

end Value

/-! ### Outcomes -/

def FirstMisfit (args : List Value) (v : Value) : Prop :=
  ∃ before after, args = before ++ v :: after ∧ (∀ u ∈ before, ∃ n, u.toInt = .ok n) ∧
    ∀ n, v.toInt ≠ .ok n

/-- The arguments fail to be integers by the first that is none, and what is shown of it has no list
of one element around it. -/
theorem mapM_toInt_eq_error_iff {args : List Value} {e : EvalError} :
    args.mapM Value.toInt = .error e ↔
      ∃ v, FirstMisfit args v ∧ e = .typeMismatch "number" v.unwrapped := by
  rw [mapM_eq_error_iff]
  constructor
  · rintro ⟨before, v, after, hargs, hbefore, hv⟩
    refine ⟨v, ⟨before, after, hargs, hbefore, ?_⟩, Value.toInt_eq_error hv⟩
    intro n hn
    rw [hv] at hn
    cases hn
  · rintro ⟨v, ⟨before, after, hargs, hbefore, hv⟩, rfl⟩
    refine ⟨before, v, after, hargs, hbefore, ?_⟩
    cases hint : v.toInt with
    | error e => rw [Value.toInt_eq_error hint]
    | ok n => exact absurd hint (hv n)

theorem mapM_toInt_replace {v w : Value} (h : w.toInt = v.toInt) (before after : List Value) :
    (before ++ w :: after).mapM Value.toInt = (before ++ v :: after).mapM Value.toInt := by
  rw [List.mapM_append, List.mapM_append, List.mapM_cons, List.mapM_cons, h]

namespace Arithmetic

variable {op : Arithmetic} {args : List Value}

theorem fold_eq_of_mapM_eq {args' : List Value} (hne : args ≠ [])
    (h : args'.mapM Value.toInt = args.mapM Value.toInt) : op.fold args' = op.fold args := by
  cases hargs : args.mapM Value.toInt with
  | error e =>
      rw [fold, fold, h, hargs]
      rfl
  | ok ns =>
      cases ns with
      | nil => exact absurd rfl (ne_nil_of_mapM hne hargs)
      | cons n ns => rw [fold_of_mapM hargs, fold_of_mapM (h.trans hargs)]

theorem fold_eq_typeMismatch_iff {expected : String} {found : Value} :
    op.fold args = .error (.typeMismatch expected found) ↔
      args.mapM Value.toInt = .error (.typeMismatch expected found) := by
  constructor
  · intro h
    rcases bind_eq_error_iff.mp h with hargs | ⟨ns, hargs, -⟩
    · exact hargs
    · -- Nothing that happens to integers is a matter of types.
      cases ns with
      | nil =>
          rw [fold, hargs] at h
          cases h
      | cons n ns =>
          rw [fold_of_mapM hargs] at h
          cases hmeaning : op.meaningAll (n :: ns) <;> rw [hmeaning] at h <;> cases h
  · intro hargs
    exact bind_eq_error_iff.mpr (.inl hargs)

end Arithmetic

namespace Relation

variable {r : Relation} {args : List Value}

theorem onNumbers_eq_error_iff {e : EvalError} (hlength : args.length = 2) :
    r.onNumbers args = .error e ↔ args.mapM Value.toInt = .error e := by
  rw [← operands_eq_error_iff hlength]
  constructor
  · intro h
    rcases bind_eq_error_iff.mp h with hoperands | ⟨_, -, h⟩
    · exact hoperands
    · cases h
  · intro hoperands
    exact bind_eq_error_iff.mpr (.inl hoperands)

theorem onNumbers_replace {v w : Value} (h : w.toInt = v.toInt) {before after : List Value}
    (hlength : (before ++ v :: after).length = 2) :
    r.onNumbers (before ++ w :: after) = r.onNumbers (before ++ v :: after) := by
  rw [List.length_append, List.length_cons] at hlength
  cases before with
  | nil =>
      have hafter : after.length = 1 := by
        rw [List.length_nil] at hlength
        omega
      obtain ⟨u, rfl⟩ := List.length_eq_one_iff.mp hafter
      simp only [List.nil_append, onNumbers, operands, h]
  | cons u before =>
      rw [List.length_cons] at hlength
      obtain rfl : before = [] := List.eq_nil_of_length_eq_zero (by omega)
      obtain rfl : after = [] := List.eq_nil_of_length_eq_zero (by omega)
      simp only [List.cons_append, List.nil_append, onNumbers, operands, h]

end Relation

/-- Arithmetic on one argument or more and comparisons of two numbers have the same outcome when an
argument is put inside lists of one element, or a number is replaced by a text that begins with it.
The error for an argument that stands for no integer is about the first such argument, and shows
what is inside the lists around it, which is no list of one element itself. -/
theorem numeric_outcome_of_disguises {v w : Value} (h : v.Disguises w) (before after : List Value) :
    (∀ op : Arithmetic, op.fold (before ++ w :: after) = op.fold (before ++ v :: after)) ∧
    (∀ r : Relation, (before ++ v :: after).length = 2 →
      r.onNumbers (before ++ w :: after) = r.onNumbers (before ++ v :: after)) ∧
    (∀ (op : Arithmetic) args expected found,
      op.fold args = .error (.typeMismatch expected found) ↔
        expected = "number" ∧ ∃ u, FirstMisfit args u ∧ found = u.unwrapped) ∧
    (∀ (r : Relation) args expected found, args.length = 2 →
      (r.onNumbers args = .error (.typeMismatch expected found) ↔
        expected = "number" ∧ ∃ u, FirstMisfit args u ∧ found = u.unwrapped)) ∧
    ∀ u : Value, (∃ k, u = Value.wrapped^[k] u.unwrapped) ∧ ∀ x, u.unwrapped ≠ Value.wrapped x := by
  have hmisfit : ∀ args expected found,
      args.mapM Value.toInt = .error (.typeMismatch expected found) ↔
        expected = "number" ∧ ∃ u, FirstMisfit args u ∧ found = u.unwrapped := by
    intro args expected found
    rw [mapM_toInt_eq_error_iff]
    simp only [EvalError.typeMismatch.injEq, and_left_comm, exists_and_left]
  refine ⟨?_, ?_, ?_, ?_, ?_⟩
  · intro op
    exact op.fold_eq_of_mapM_eq (by simp) (mapM_toInt_replace h.toInt_eq before after)
  · intro r hlength
    exact r.onNumbers_replace h.toInt_eq hlength
  · intro op args expected found
    rw [op.fold_eq_typeMismatch_iff, hmisfit]
  · intro r args expected found hlength
    rw [r.onNumbers_eq_error_iff hlength, hmisfit]
  · intro u
    exact ⟨u.exists_eq_iterate_wrapped, u.unwrapped_ne_wrapped⟩

/-- A negative number behind an ideographic space and a tab, and what is left of a text after it. -/
theorem numeric_outcome_of_disguises_spaced :
    (Value.number (-12)).Disguises (.string ("\u3000\t" ++ Decimal.text (-12) ++ "-3")) ∧
    Arithmetic.sub.fold [.number 5, .string ("\u3000\t" ++ Decimal.text (-12) ++ "-3")] =
      .ok (.number 17) ∧
    Relation.less.onNumbers [.number 5, .string ("\u3000\t" ++ Decimal.text (-12) ++ "-3")] =
      .ok (.bool false) := by
  have hdisguises : (Value.number (-12)).Disguises
      (.string ("\u3000\t" ++ Decimal.text (-12) ++ "-3")) :=
    .text (-12) (List.all_eq_true.mp (by decide)) (by simp)
  obtain ⟨hfold, hrelation, -⟩ := numeric_outcome_of_disguises hdisguises [.number 5] []
  exact ⟨hdisguises, hfold .sub, hrelation .less rfl⟩

-- Of three lists the error shows what is in the innermost one.
example : Arithmetic.add.fold [.number 1, Value.wrapped^[3] (.list [])] =
    .error (.typeMismatch "number" (.list [])) := by rfl

end MiniLisp
