import MiniLisp.Text.Classes

/-!
Integers in decimal notation: their text, the value of a run of digits, and the integer that stands
at the front of a text.
-/

namespace MiniLisp.Decimal

def chars : Int → List Char
  | .ofNat n => Nat.toDigits 10 n
  | .negSucc n => '-' :: Nat.toDigits 10 (n + 1)

def text (n : Int) : String :=
  String.ofList (chars n)

/-- The value of a run of ASCII digits; leading zeros do not matter. -/
def value (digits : List Char) : Nat :=
  Nat.ofDigitChars 10 digits 0

theorem value_toDigits (n : Nat) : value (Nat.toDigits 10 n) = n :=
  Nat.ofDigitChars_ten_toDigits

def ofDigits? (cs : List Char) : Option Int :=
  if cs ≠ [] ∧ cs.all Char.isDigit then some (value cs) else none

def leadingNat? (cs : List Char) : Option Nat :=
  match cs.takeWhile Char.isDigit with
  | [] => none
  | digits => some (value digits)

/-- The integer at the front of a text: white space, an optional minus sign and at least one digit,
whatever follows the digits. -/
def leadingInt? (cs : List Char) : Option Int :=
  match cs.dropWhile Text.isSpace with
  | '-' :: rest => (leadingNat? rest).map fun (n : Nat) => -(n : Int)
  | rest => (leadingNat? rest).map fun (n : Nat) => (n : Int)

end MiniLisp.Decimal
