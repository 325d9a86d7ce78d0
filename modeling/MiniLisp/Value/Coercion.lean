import MiniLisp.EvalError

/-!
Taking a value for a number, a truth value or a text, as the primitives do with their arguments.
-/

namespace MiniLisp.Value

/-- The integer that a value stands for: a number is itself, a string stands for the integer at its
front, and a list of one element for what its element stands for. -/
def toInt : Value → Except EvalError Int
  | number n => .ok n
  | string contents =>
      match Decimal.leadingInt? contents.toList with
      | some n => .ok n
      | none => .error (.typeMismatch "number" (string contents))
  | list [v] => v.toInt
  | v => .error (.typeMismatch "number" v)

def toBool : Value → Except EvalError Bool
  | bool b => .ok b
  | v => .error (.typeMismatch "boolean" v)

/-- The text that a value stands for: a string is its contents, a number or a truth value its own
text. -/
def toText : Value → Except EvalError String
  | string contents => .ok contents
  | number n => .ok (Decimal.text n)
  | bool b => .ok (boolText b)
  | v => .error (.typeMismatch "string" v)

end MiniLisp.Value
