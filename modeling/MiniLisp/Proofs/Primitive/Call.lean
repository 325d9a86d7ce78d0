import MiniLisp.Primitive.Table
import MiniLisp.Proofs.Outcome
import MiniLisp.Proofs.Value.Nodes

/-!
What a call of a primitive can end with. Its result is a number or a truth value, and its error says
one of four things: nothing has that name, the arguments are too few or too many, a part of an
argument is not of the kind that is wanted, or something is divided by zero.
-/

namespace MiniLisp

inductive EvalError.OfArguments (args : List Value) : EvalError → Prop where
  | argumentCount : OfArguments args (.argumentCount 2 args)
  | typeMismatch {expected : String} {u v : Value} :
      v ∈ args → u ∈ v.nodes → OfArguments args (.typeMismatch expected u)
  | unknownFunction {text name : String} : OfArguments args (.unknownFunction text name)
  | divisionByZero {operator : String} : OfArguments args (.divisionByZero operator)

/-! ### Coercions -/

/-- `Rejects coerce` says that `coerce` fails only by naming a part of its argument. -/
def Rejects {α : Type} (coerce : Value → Except EvalError α) : Prop :=
  ∀ v e, coerce v = .error e → ∃ expected, ∃ u ∈ v.nodes, e = .typeMismatch expected u

namespace Value

theorem rejects_toInt : Rejects toInt := by
  intro v e h
  fun_induction toInt v with
  | case1 n => cases h
  | case2 contents n hn => cases h
  | case3 contents hn =>
      cases h
      exact ⟨_, _, self_mem_nodes _, rfl⟩
  | case4 v ih =>
      obtain ⟨expected, u, hu, he⟩ := ih h
      refine ⟨expected, u, ?_, he⟩
      simp [hu]
  | case5 v =>
      cases h
      exact ⟨_, _, self_mem_nodes _, rfl⟩

theorem rejects_toBool : Rejects toBool := by
  intro v e h
  unfold toBool at h
  split at h <;> cases h
  exact ⟨_, _, self_mem_nodes _, rfl⟩

theorem rejects_toText : Rejects toText := by
  intro v e h
  unfold toText at h
  split at h <;> cases h
  exact ⟨_, _, self_mem_nodes _, rfl⟩

end Value

theorem Rejects.ofArguments {α : Type} {coerce : Value → Except EvalError α}
    (hcoerce : Rejects coerce) {v : Value} {args : List Value} {e : EvalError} (hv : v ∈ args)
    (h : coerce v = .error e) : e.OfArguments args := by
  obtain ⟨expected, u, hu, rfl⟩ := hcoerce v e h
  exact .typeMismatch hv hu

/-! ### Primitives -/

theorem operands_eq_error {α : Type} {coerce : Value → Except EvalError α}
    (hcoerce : Rejects coerce) {args : List Value} {e : EvalError}
    (h : operands coerce args = .error e) : e.OfArguments args := by
  unfold operands at h
  split at h
  · next left right =>
      rcases bind_eq_error_iff.mp h with hleft | ⟨a, -, h⟩
      · exact hcoerce.ofArguments (by simp) hleft
      · rcases bind_eq_error_iff.mp h with hright | ⟨b, -, h⟩
        · exact hcoerce.ofArguments (by simp) hright
        · cases h
  · cases h
    exact .argumentCount

namespace Arithmetic

variable {op : Arithmetic} {args : List Value}

theorem fold_eq_error {e : EvalError} (h : op.fold args = .error e) : e.OfArguments args := by
  rcases bind_eq_error_iff.mp h with hargs | ⟨ns, -, h⟩
  · obtain ⟨before, v, after, rfl, -, hint⟩ := mapM_eq_error_iff.mp hargs
    exact Value.rejects_toInt.ofArguments (by simp) hint
  · split at h
    · cases h
      exact .argumentCount
    · rcases bind_eq_error_iff.mp h with hfold | ⟨n, -, h⟩
      · obtain ⟨a, b, -, hcombine⟩ := exists_of_foldlM_eq_error hfold
        unfold combine at hcombine
        split at hcombine
        · cases hcombine
        · cases hcombine
          exact .divisionByZero
      · cases h

theorem isSelfEvaluating_of_fold {w : Value} (h : op.fold args = .ok w) :
    w.isSelfEvaluating = true := by
  obtain ⟨ns, -, h⟩ := bind_eq_ok_iff.mp h
  split at h
  · cases h
  · obtain ⟨n, -, h⟩ := bind_eq_ok_iff.mp h
    cases h
    rfl

end Arithmetic

namespace Primitive

variable {p : Primitive} {args : List Value}

theorem call_eq_error {e : EvalError} (h : p.call args = .error e) : e.OfArguments args := by
  cases p with
  | arithmetic op => exact op.fold_eq_error h
  | numbers r =>
      rcases bind_eq_error_iff.mp h with h | ⟨_, -, h⟩
      · exact operands_eq_error Value.rejects_toInt h
      · cases h
  | connective c =>
      rcases bind_eq_error_iff.mp h with h | ⟨_, -, h⟩
      · exact operands_eq_error Value.rejects_toBool h
      · cases h
  | texts r =>
      rcases bind_eq_error_iff.mp h with h | ⟨_, -, h⟩
      · exact operands_eq_error Value.rejects_toText h
      · cases h

theorem isSelfEvaluating_of_call {w : Value} (h : p.call args = .ok w) :
    w.isSelfEvaluating = true := by
  cases p with
  | arithmetic op => exact op.isSelfEvaluating_of_fold h
  | numbers r =>
      obtain ⟨_, -, h⟩ := bind_eq_ok_iff.mp h
      cases h
      rfl
  | connective c =>
      obtain ⟨_, -, h⟩ := bind_eq_ok_iff.mp h
      cases h
      rfl
  | texts r =>
      obtain ⟨_, -, h⟩ := bind_eq_ok_iff.mp h
      cases h
      rfl

end Primitive

variable {name : String} {args : List Value}

theorem apply_eq_error {e : EvalError} (h : apply name args = .error e) : e.OfArguments args := by
  unfold apply at h
  split at h
  · cases h
    exact .unknownFunction
  · split at h
    · exact Primitive.call_eq_error h
    · cases h
      exact .argumentCount

/-- No primitive puts values together: what it gives is a literal. -/
theorem isSelfEvaluating_of_apply {w : Value} (h : apply name args = .ok w) :
    w.isSelfEvaluating = true := by
  unfold apply at h
  split at h
  · cases h
  · split at h
    · exact Primitive.isSelfEvaluating_of_call h
    · cases h

end MiniLisp
