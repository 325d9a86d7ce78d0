import MiniLisp.Reader.Basic
import MiniLisp.Token.Scan

/-!
Reading a whole source text, which holds one expression with optional white space around it.
-/

namespace MiniLisp

def defaultLimit : Nat :=
  256

def skipBlank : List Lexeme → List Lexeme
  | ⟨.blank, _⟩ :: rest => rest
  | lexemes => lexemes

def Lexemes.parse (limit : Nat) (lexemes : Lexemes) : Except ParseError Value :=
  match readExpression (.top limit lexemes.stop) (skipBlank lexemes.items) with
  | (.error e, _) => .error e
  | (.ok v, rest) =>
      match skipBlank rest with
      | [] => .ok v
      | extra :: _ => .error ⟨.trailingToken extra.token.describe, extra.position⟩

/-- The expression that a source text spells, with at most `limit` levels of lists and quotes. -/
def parse (limit : Nat) (source : String) : Except ParseError Value := do
  let lexemes ← tokenize source
  lexemes.parse limit

end MiniLisp
