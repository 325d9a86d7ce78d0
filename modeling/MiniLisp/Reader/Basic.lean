import MiniLisp.Reader.Scope
import MiniLisp.Token.Basic
import MiniLisp.Value.Basic

/-!
Reading one expression from a list of tokens. The reader takes one token at a time and keeps the
forms that are still open on a stack, so it is a fold over the tokens: it never looks at a token it
does not take, and it knows at every token what may come next.
-/

namespace MiniLisp

/-- An open form that waits for an expression. Elements already read are kept last first. -/
inductive Frame where
  | quote
  | element (read : List Value)
  /-- Before the part of a list that follows its dot. -/
  | tail (read : List Value)

/-- What the reader waits for in the innermost form. -/
inductive Phase where
  | expression
  /-- After an element: white space or the closing parenthesis. -/
  | separator (read : List Value)
  | dot (read : List Value)
  /-- After the part that follows the dot: the closing parenthesis. -/
  | close (read : List Value) (tail : Value)

structure Reader where
  scope : Scope
  /-- The forms around the expression that is due or, past it, around the list being read. -/
  frames : List Frame
  phase : Phase

namespace Reader

def start (scope : Scope) : Reader :=
  ⟨scope, [], .expression⟩

inductive Step where
  | more (reader : Reader)
  | done (v : Value)

def symbolValue (name : String) : Value :=
  if name = "#t" then .bool true
  else if name = "#f" then .bool false
  else .atom name

/-- Hands a complete expression to the forms around it, innermost first. -/
def deliver (scope : Scope) (v : Value) : List Frame → Step
  | [] => .done v
  | .quote :: frames => deliver scope.leave v.quoted frames
  | .element read :: frames => .more ⟨scope, frames, .separator (v :: read)⟩
  | .tail read :: frames => .more ⟨scope, frames, .close read v⟩

def enter (reader : Reader) (frame : Frame) (p : Position) : Except ParseError Step := do
  let scope ← reader.scope.enter p
  return .more ⟨scope, frame :: reader.frames, .expression⟩

def unexpected (expected : String) (lexeme : Lexeme) : ParseError :=
  ⟨.unexpectedToken s!"Expected {expected}, found {lexeme.token.describe}", lexeme.position⟩

/-- Takes a token where an expression is due. At the front of a list there may be a closing
parenthesis instead, and before any element of a list a dot. -/
def stepExpression (reader : Reader) (lexeme : Lexeme) : Except ParseError Step :=
  match lexeme.token, reader.frames with
  | .symbol name, frames => .ok (deliver reader.scope (symbolValue name) frames)
  | .string contents, frames => .ok (deliver reader.scope (.string contents) frames)
  | .number n, frames => .ok (deliver reader.scope (.number n) frames)
  | .quote, _ => reader.enter .quote lexeme.position
  | .lparen, _ => reader.enter (.element []) lexeme.position
  | .rparen, .element [] :: frames => .ok (deliver reader.scope.leave (.list []) frames)
  | .dot, .element read :: frames => .ok (.more ⟨reader.scope, frames, .dot read⟩)
  | _, _ => .error (unexpected "an expression" lexeme)

def step (reader : Reader) (lexeme : Lexeme) : Except ParseError Step :=
  match reader.phase, lexeme.token with
  | .expression, _ => reader.stepExpression lexeme
  | .separator read, .rparen =>
      .ok (deliver reader.scope.leave (.list read.reverse) reader.frames)
  | .separator read, .blank =>
      .ok (.more ⟨reader.scope, .element read :: reader.frames, .expression⟩)
  | .separator _, _ => .error (unexpected "whitespace or ')'" lexeme)
  | .dot read, .blank => .ok (.more ⟨reader.scope, .tail read :: reader.frames, .expression⟩)
  | .dot _, _ => .error (unexpected "whitespace" lexeme)
  | .close read tail, .rparen =>
      .ok (deliver reader.scope.leave (.dotted read.reverse tail) reader.frames)
  | .close _ _, _ => .error (unexpected "')'" lexeme)

/-- Takes tokens until the expression is complete or cannot be completed, and gives the outcome
with the tokens not taken. -/
def run (reader : Reader) : List Lexeme → Except ParseError Value × List Lexeme
  | [] => (.error ⟨.unexpectedEnd, reader.scope.stop⟩, [])
  | lexeme :: rest =>
      match reader.step lexeme with
      | .error e => (.error e, rest)
      | .ok (.done v) => (.ok v, rest)
      | .ok (.more next) => next.run rest

end Reader

/-- Reads one expression inside `scope` from the front of the tokens. Both a value and an error come
with the tokens that were not taken. -/
def readExpression (scope : Scope) (lexemes : List Lexeme) :
    Except ParseError Value × List Lexeme :=
  (Reader.start scope).run lexemes

end MiniLisp
