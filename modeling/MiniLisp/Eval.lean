import MiniLisp.Primitive.Table
import MiniLisp.Reader.Source

/-!
Evaluating expressions. Numbers, strings and truth values are their own results, `(quote v)` gives
`v`, and any other list that begins with an atom calls a primitive with its evaluated arguments.
-/

namespace MiniLisp

mutual

/-- The result of an expression. Arguments are evaluated from the left, and before anything is known
about the function they are for. -/
def eval : Value → Except EvalError Value
  | .number n => .ok (.number n)
  | .string contents => .ok (.string contents)
  | .bool b => .ok (.bool b)
  | .list [.atom "quote", v] => .ok v
  | .list (.atom name :: args) => do apply name (← evalAll args)
  | form => .error (.badSpecialForm "Unrecognized special form" form)

def evalAll : List Value → Except EvalError (List Value)
  | [] => .ok []
  | v :: vs => do
      let w ← eval v
      let ws ← evalAll vs
      return w :: ws

end

/-- Evaluates an expression, then its result and so on, `count` times or up to the first error. -/
def evalTrace : Nat → Value → List (Except EvalError Value)
  | 0, _ => []
  | count + 1, v =>
      match eval v with
      | .error e => [.error e]
      | .ok w => .ok w :: evalTrace count w

def evaluate (limit : Nat) (source : String) : Except EvalError Value :=
  match parse limit source with
  | .error e => .error (.parseFailure e)
  | .ok v => eval v

def render (source : String) : String :=
  match evaluate defaultLimit source with
  | .error e => e.message
  | .ok v => v.text

end MiniLisp
