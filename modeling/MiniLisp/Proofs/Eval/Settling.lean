import Mathlib.Logic.Function.Iterate
import MiniLisp.Proofs.Eval.Origin
import MiniLisp.Proofs.Eval.Transparency

/-!
Evaluating a result again and again. A literal stays what it is, and any other result has stood
behind a quote, so an evaluation that does not settle the outcome takes a quotation away. The value
at the start then had as many quotations around the result as there were evaluations, and its depth
bounds their number, whatever code comes to light from behind the quotes.
-/

namespace MiniLisp

/-- The outcome of evaluating a value, then its result and so on, `n` times in all. -/
def evalTimes : Nat → Value → Except EvalError Value
  | 0, v => .ok v
  | n + 1, v => do evalTimes n (← eval v)

def Settled : Except EvalError Value → Prop
  | .error _ => True
  | .ok w => w.isSelfEvaluating = true

namespace Value

@[simp] theorem depth_quoted (v : Value) : v.quoted.depth = v.depth + 1 := by
  simp [quoted, depth, depthAll]

theorem depth_iterate_quoted (n : Nat) (v : Value) : (quoted^[n] v).depth = v.depth + n := by
  induction n with
  | zero => rfl
  | succ n ih =>
      rw [Function.iterate_succ_apply', depth_quoted, ih]
      omega

end Value

theorem eval_of_isSelfEvaluating {v : Value} (h : v.isSelfEvaluating = true) : eval v = .ok v := by
  cases v with
  | number n => rw [eval]
  | string contents => rw [eval]
  | bool b => rw [eval]
  | _ => cases h

theorem evalTimes_succ (n : Nat) (v : Value) : evalTimes (n + 1) v = evalTimes n v >>= eval := by
  induction n generalizing v with
  | zero =>
      change eval v >>= evalTimes 0 = eval v
      cases eval v <;> rfl
  | succ n ih =>
      rw [evalTimes, evalTimes]
      cases eval v with
      | error e => rfl
      | ok w => exact ih w

theorem getLast?_evalTrace (n : Nat) (v : Value) :
    (evalTrace (n + 1) v).getLast? = some (evalTimes (n + 1) v) := by
  induction n generalizing v with
  | zero =>
      rw [evalTrace, evalTimes]
      cases eval v <;> rfl
  | succ n ih =>
      rw [evalTrace, evalTimes]
      cases eval v with
      | error e => rfl
      | ok w =>
          have hlast := ih w
          rw [List.getLast?_cons, hlast]
          rfl

theorem Settled.bind_eval {outcome : Except EvalError Value} (h : Settled outcome) :
    outcome >>= eval = outcome := by
  cases outcome with
  | error e => rfl
  | ok w => exact eval_of_isSelfEvaluating h

theorem evalTimes_of_settled {m n : Nat} {v : Value} (hle : m ≤ n)
    (h : Settled (evalTimes m v)) : evalTimes n v = evalTimes m v := by
  induction n, hle using Nat.le_induction with
  | base => rfl
  | succ n _ ih => rw [evalTimes_succ, ih, h.bind_eval]

theorem evalTimes_eq_quoted {n : Nat} {v w : Value} (h : evalTimes (n + 1) v = .ok w)
    (hw : w.isSelfEvaluating = false) : evalTimes n v = .ok w.quoted := by
  rw [evalTimes_succ] at h
  obtain ⟨u, hu, heval⟩ := bind_eq_ok_iff.mp h
  rcases isSelfEvaluating_or_eq_quoted heval with hliteral | rfl
  · rw [hw] at hliteral
    cases hliteral
  · exact hu

/-- A result that is no literal was quoted once for every evaluation. -/
theorem eq_iterate_quoted {n : Nat} {v w : Value} (h : evalTimes n v = .ok w)
    (hw : w.isSelfEvaluating = false) : v = Value.quoted^[n] w := by
  induction n generalizing w with
  | zero => exact Except.ok.inj h
  | succ n ih => exact ih (evalTimes_eq_quoted h hw) rfl

theorem evalTimes_iterate_quoted (n : Nat) (v : Value) :
    evalTimes n (Value.quoted^[n] v) = .ok v := by
  induction n with
  | zero => rfl
  | succ n ih =>
      rw [Function.iterate_succ_apply', evalTimes, eval_quoted]
      exact ih

/-- There are not more quotations around a result than the value at the start is deep. -/
theorem settled_evalTimes {n : Nat} {v : Value} (h : v.depth < n) : Settled (evalTimes n v) := by
  cases hn : evalTimes n v with
  | error e => trivial
  | ok w =>
      by_contra hw
      have hquoted := eq_iterate_quoted hn (Bool.not_eq_true _ ▸ hw)
      have hdepth := w.depth_iterate_quoted n
      rw [← hquoted] at hdepth
      omega

/-- Repeated evaluation settles. After more evaluations than the value is deep there is an error or a
literal, and from the first time that there is, the outcome does not change any more. A result before
that is the body of the quotation that was evaluated last, which is deeper. Evaluating undoes any
number of quotations one by one. A trace of evaluations ends with the outcome of all of them. -/
theorem evalTimes_settles (v : Value) :
    (∀ n, v.depth < n → Settled (evalTimes n v)) ∧
    (∀ m n, m ≤ n → Settled (evalTimes m v) → evalTimes n v = evalTimes m v) ∧
    (∀ n w, evalTimes (n + 1) v = .ok w → w.isSelfEvaluating = false →
      evalTimes n v = .ok w.quoted ∧ w.depth < w.quoted.depth) ∧
    (∀ n, evalTimes n (Value.quoted^[n] v) = .ok v) ∧
    ∀ n, (evalTrace (n + 1) v).getLast? = some (evalTimes (n + 1) v) := by
  refine ⟨?_, ?_, ?_, ?_, ?_⟩
  · intro n hn
    exact settled_evalTimes hn
  · intro m n hle h
    exact evalTimes_of_settled hle h
  · intro n w h hw
    refine ⟨evalTimes_eq_quoted h hw, ?_⟩
    rw [Value.depth_quoted]
    omega
  · intro n
    exact evalTimes_iterate_quoted n v
  · intro n
    exact getLast?_evalTrace n v

-- The bound is met: it takes three evaluations to find that there is no result.
example : ((Value.atom "x").quoted.quoted).depth = 2 ∧
    evalTimes 2 (Value.atom "x").quoted.quoted = .ok (.atom "x") ∧
    evalTimes 3 (Value.atom "x").quoted.quoted =
      .error (.badSpecialForm "Unrecognized special form" (.atom "x")) := by
  refine ⟨rfl, rfl, rfl⟩

end MiniLisp
