import MiniLisp.ParseError
import MiniLisp.Text.Classes
import MiniLisp.Text.Literal
import MiniLisp.Token.Basic

/-!
Splitting a source text into tokens. The first character of a token tells its kind, and runs of
digits, of symbol characters and of white space are taken as long as possible.
-/

namespace MiniLisp

namespace Token

def isBlank (c : Char) : Bool :=
  c == ' ' || c == '\t' || c == '\r' || c == '\n'

/-- A token at the front of a text, with the characters that spell it after the first one and the
characters that follow it. -/
structure Scanned where
  token : Token
  more : List Char
  rest : List Char

/-- A place where no token can be read: its cause and the characters in front of it. -/
structure Fault where
  cause : ParseError.Cause
  before : List Char

def scanRun (part : Char → Bool) (make : List Char → Token) (c : Char) (rest : List Char) :
    Scanned :=
  let run := rest.takeWhile part
  ⟨make (c :: run), run, rest.dropWhile part⟩

def scanNumber (c : Char) (rest : List Char) : Except Fault Scanned :=
  let run := rest.takeWhile Char.isDigit
  match Decimal.ofDigits? (c :: run) with
  | some n => .ok ⟨.number n, run, rest.dropWhile Char.isDigit⟩
  | none => .error ⟨.invalidCharacter (String.singleton c), []⟩

/-- A string literal, read on from just after its opening quote. -/
def scanString (rest : List Char) : Except Fault Scanned :=
  match Text.Literal.read rest with
  | .closed contents text rest => .ok ⟨.string (String.ofList contents), text, rest⟩
  | .badEscape before escape => .error ⟨.invalidEscape escape, '"' :: before⟩
  | .unclosed => .error ⟨.unterminatedString, []⟩

inductive Opening where
  | single (token : Token)
  | string
  | number
  | blank
  | symbol
  | invalid
  deriving DecidableEq

def opening (c : Char) : Opening :=
  if c = '(' then .single .lparen
  else if c = ')' then .single .rparen
  else if c = '\'' then .single .quote
  else if c = '.' then .single .dot
  else if c = '"' then .string
  else if c.isDigit then .number
  else if isBlank c then .blank
  else if Text.isSymbolStart c then .symbol
  else .invalid

/-- The token that begins with `c`, or the first fault in it. -/
def scan (c : Char) (rest : List Char) : Except Fault Scanned :=
  match opening c with
  | .single token => .ok ⟨token, [], rest⟩
  | .string => scanString rest
  | .number => scanNumber c rest
  | .blank => .ok (scanRun isBlank (fun _ => .blank) c rest)
  | .symbol => .ok (scanRun Text.isSymbolPart (fun name => .symbol (String.ofList name)) c rest)
  | .invalid => .error ⟨.invalidCharacter (String.singleton c), []⟩

@[simp] theorem append_scanRun (part : Char → Bool) (make : List Char → Token) (c : Char)
    (rest : List Char) :
    (scanRun part make c rest).more ++ (scanRun part make c rest).rest = rest :=
  List.takeWhile_append_dropWhile

theorem append_of_scanNumber {c : Char} {rest : List Char} {s : Scanned}
    (h : scanNumber c rest = .ok s) : s.more ++ s.rest = rest := by
  simp only [scanNumber] at h
  split at h
  · cases h
    exact List.takeWhile_append_dropWhile
  · cases h

theorem append_of_scanString {rest : List Char} {s : Scanned} (h : scanString rest = .ok s) :
    s.more ++ s.rest = rest := by
  unfold scanString at h
  split at h
  · next hread =>
      cases h
      exact Text.Literal.append_of_read_eq_closed hread
  · cases h
  · cases h

/-- No character is lost: a token's characters and the rest are all that was there. -/
theorem append_of_scan {c : Char} {rest : List Char} {s : Scanned} (h : scan c rest = .ok s) :
    s.more ++ s.rest = rest := by
  unfold scan at h
  split at h
  case h_1 => cases h; rfl
  case h_2 => exact append_of_scanString h
  case h_3 => exact append_of_scanNumber h
  case h_4 => cases h; exact append_scanRun ..
  case h_5 => cases h; exact append_scanRun ..
  case h_6 => cases h

theorem length_rest_lt_of_scan {c : Char} {rest : List Char} {s : Scanned}
    (h : scan c rest = .ok s) : s.rest.length < (c :: rest).length := by
  rw [← append_of_scan h, List.length_cons, List.length_append]
  omega

end Token

def Lexemes.scan (p : Position) (source : List Char) : Except ParseError Lexemes :=
  match source with
  | [] => .ok ⟨[], p⟩
  | c :: rest =>
      match _h : Token.scan c rest with
      | .error fault => .error ⟨fault.cause, p.after fault.before⟩
      | .ok s =>
          match scan (p.after (c :: s.more)) s.rest with
          | .error e => .error e
          | .ok more => .ok ⟨⟨s.token, p⟩ :: more.items, more.stop⟩
termination_by source.length
decreasing_by exact Token.length_rest_lt_of_scan ‹_›

/-- The tokens of a source text, or the first place where it cannot be split. -/
def tokenize (source : String) : Except ParseError Lexemes :=
  Lexemes.scan .start source.toList

end MiniLisp
