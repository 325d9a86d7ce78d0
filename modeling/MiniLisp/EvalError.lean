import MiniLisp.ParseError
import MiniLisp.Value.Text

/-!
Why an expression has no result.
-/

namespace MiniLisp

inductive EvalError where
  | argumentCount (expected : Nat) (found : List Value)
  | typeMismatch (expected : String) (found : Value)
  | parseFailure (cause : ParseError)
  | badSpecialForm (text : String) (form : Value)
  | unknownFunction (text : String) (name : String)
  | unboundVariable (text : String) (name : String)
  | divisionByZero (operator : String)
  | other (text : String)
  deriving DecidableEq

namespace EvalError

def message : EvalError → String
  | argumentCount expected found =>
      s!"Expected {expected} args; found values" ++
        String.join (found.map fun v => " " ++ v.text)
  | typeMismatch expected found => s!"Invalid type: expected {expected}, found {found.text}"
  | parseFailure cause => cause.message
  | badSpecialForm text form => s!"{text}: {form.text}"
  | unknownFunction text name => s!"{text}: {name}"
  | unboundVariable text name => s!"{text}: {name}"
  | divisionByZero operator => s!"Division by zero in {operator}"
  | other text => text

/-- The error of the reader that lies behind this one. -/
def cause? : EvalError → Option ParseError
  | parseFailure cause => some cause
  | _ => none

end EvalError

end MiniLisp
