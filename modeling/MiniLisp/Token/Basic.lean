import MiniLisp.Decimal
import MiniLisp.Position

/-!
The tokens of a source text. White space is a token of its own, because it separates the elements
of a list.
-/

namespace MiniLisp

inductive Token where
  | lparen
  | rparen
  | quote
  | dot
  | number (n : Int)
  /-- A string literal with its escapes decoded. -/
  | string (contents : String)
  | symbol (name : String)
  | blank
  deriving DecidableEq

def Token.describe : Token → String
  | lparen => "'('"
  | rparen => "')'"
  | quote => "'''"
  | dot => "'.'"
  | number n => "number " ++ Decimal.text n
  | string contents => "string \"" ++ contents ++ "\""
  | symbol name => "symbol " ++ name
  | blank => "whitespace"

structure Lexeme where
  token : Token
  position : Position
  deriving DecidableEq

/-- The tokens of a source text in order, and the place just past its last character. -/
structure Lexemes where
  items : List Lexeme
  stop : Position
  deriving DecidableEq

end MiniLisp
