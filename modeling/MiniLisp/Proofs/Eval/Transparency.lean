import MiniLisp.Proofs.Eval.Context

/-!
Expressions with the same outcome can stand for one another. A call gets to see the results of its
arguments and never the arguments themselves, so the outcome of a context is a function of the
outcome at its open place. How an argument is written shows neither in the result of the whole nor
in its error.
-/

namespace MiniLisp

theorem evalAll_append (vs ws : List Value) :
    evalAll (vs ++ ws) = evalAll vs >>= fun xs => evalAll ws >>= fun ys => .ok (xs ++ ys) := by
  induction vs with
  | nil =>
      rw [List.nil_append, evalAll]
      cases evalAll ws <;> rfl
  | cons v vs ih =>
      rw [List.cons_append, evalAll_cons, evalAll_cons, ih]
      cases eval v with
      | error e => rfl
      | ok w =>
          cases evalAll vs with
          | error e => rfl
          | ok xs => cases evalAll ws <;> rfl

theorem eval_quoted (v : Value) : eval v.quoted = .ok v := by
  rw [Value.quoted, eval]

namespace OpenCall

/-- The outcome of the call when its open argument has the given outcome. -/
def resume (call : OpenCall) (outcome : Except EvalError Value) : Except EvalError Value := do
  let before ← evalAll call.before
  let w ← outcome
  let after ← evalAll call.after
  apply call.name (before ++ w :: after)

/-- A call takes no notice of anything but the outcome of its open argument. -/
theorem eval_fill_eq_resume (call : OpenCall) (v : Value) :
    eval (call.fill v) = call.resume (eval v) := by
  rw [eval_fill, evalAll_append, evalAll_cons, resume]
  cases evalAll call.before with
  | error e => rfl
  | ok before =>
      cases eval v with
      | error e => rfl
      | ok w => cases evalAll call.after <;> rfl

end OpenCall

namespace Context

def resume (context : Context) (outcome : Except EvalError Value) : Except EvalError Value :=
  context.foldr OpenCall.resume outcome

theorem eval_fill_eq_resume (context : Context) (v : Value) :
    eval (context.fill v) = context.resume (eval v) := by
  induction context with
  | nil => rfl
  | cons call context ih =>
      rw [fill_cons, OpenCall.eval_fill_eq_resume, ih]
      rfl

end Context

/-- Two expressions with the same outcome, be it a value or an error, have the same effect at the
open place of any context. So an expression with a result can be replaced by the quotation of the
result. -/
theorem eval_fill_eq_of_eval_eq (context : Context) :
    (∀ x y, eval x = eval y → eval (context.fill x) = eval (context.fill y)) ∧
    ∀ x w, eval x = .ok w → eval (context.fill w.quoted) = eval (context.fill x) := by
  have hcongr : ∀ x y, eval x = eval y → eval (context.fill x) = eval (context.fill y) := by
    intro x y h
    rw [context.eval_fill_eq_resume, context.eval_fill_eq_resume, h]
  refine ⟨hcongr, ?_⟩
  intro x w h
  exact hcongr w.quoted x (by rw [eval_quoted, h])

-- Nothing evaluates the inside of a quotation, so there it does matter how a number is written.
example : eval (Value.list [.atom "+", .number 1, .number 2]).quoted ≠
    eval (Value.number 3).quoted := by
  simp [eval_quoted]

end MiniLisp
