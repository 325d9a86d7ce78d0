import MiniLisp.Division
import MiniLisp.Value.Coercion

/-!
Arithmetic on any number of arguments, combined from the left.
-/

namespace MiniLisp

inductive Arithmetic where
  | add
  | sub
  | mul
  /-- Division rounded down. -/
  | div
  | mod
  /-- Division rounded toward zero. -/
  | quotient
  | remainder
  deriving DecidableEq

namespace Arithmetic

def name : Arithmetic → String
  | add => "+"
  | sub => "-"
  | mul => "*"
  | div => "/"
  | mod => "mod"
  | quotient => "quotient"
  | remainder => "remainder"

def combine? : Arithmetic → Int → Int → Option Int
  | add, a, b => some (a + b)
  | sub, a, b => some (a - b)
  | mul, a, b => some (a * b)
  | div, a, b => Division.floorQuotient? a b
  | mod, a, b => Division.floorRemainder? a b
  | quotient, a, b => Division.truncQuotient? a b
  | remainder, a, b => Division.truncRemainder? a b

def combine (op : Arithmetic) (a b : Int) : Except EvalError Int :=
  match op.combine? a b with
  | some n => .ok n
  | none => .error (.divisionByZero op.name)

/-- Combines the arguments from the left. All of them are taken for integers before the first two
are combined. -/
def fold (op : Arithmetic) (args : List Value) : Except EvalError Value := do
  match ← args.mapM Value.toInt with
  | [] => .error (.argumentCount 2 args)
  | first :: rest => return .number (← rest.foldlM op.combine first)

end Arithmetic

end MiniLisp
