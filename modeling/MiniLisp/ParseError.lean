import MiniLisp.Position

/-!
Why a source text cannot be read. Every such error has a cause and the place where it was found.
-/

namespace MiniLisp

inductive ParseError.Cause where
  /-- A token that cannot stand where it does; the text says what was expected and what found. -/
  | unexpectedToken (text : String)
  | unexpectedEnd
  | invalidCharacter (text : String)
  | unterminatedString
  | invalidEscape (escape : Char)
  | trailingToken (text : String)
  | nestingTooDeep (limit : Nat)
  deriving DecidableEq

structure ParseError where
  cause : ParseError.Cause
  position : Position
  deriving DecidableEq

namespace ParseError

def Cause.message : Cause → String
  | unexpectedToken text => s!"Unexpected token: {text}."
  | unexpectedEnd => "Unexpected end of input."
  | invalidCharacter text => s!"Invalid character '{text}'."
  | unterminatedString => "String literal is missing its closing '\"'."
  | invalidEscape escape => s!"Unknown escape sequence '\\{escape}'."
  | trailingToken text => s!"Extra input after expression. Check your input: {text}"
  | nestingTooDeep limit => s!"Expression is nested deeper than {limit} levels."

def message (e : ParseError) : String :=
  s!"Parse error at {e.position.describe}: {e.cause.message}"

end ParseError

end MiniLisp
