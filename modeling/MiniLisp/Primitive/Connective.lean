import MiniLisp.Value.Coercion

/-!
Primitives of two arguments, and combining two truth values. Both must be truth values, whatever the
first one is.
-/

namespace MiniLisp

/-- Takes two arguments for what `coerce` makes of them, the left one first. -/
def operands {α : Type} (coerce : Value → Except EvalError α) (args : List Value) :
    Except EvalError (α × α) :=
  match args with
  | [left, right] => do
      let a ← coerce left
      let b ← coerce right
      return (a, b)
  | _ => .error (.argumentCount 2 args)

inductive Connective where
  | and
  | or
  deriving DecidableEq

namespace Connective

def combine : Connective → Bool → Bool → Bool
  | and, a, b => a && b
  | or, a, b => a || b

def onBools (c : Connective) (args : List Value) : Except EvalError Value := do
  let (a, b) ← operands Value.toBool args
  return .bool (c.combine a b)

end Connective

end MiniLisp
