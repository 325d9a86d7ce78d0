import MiniLisp.Decimal
import MiniLisp.Value.Basic

/-!
The text of a value. Strings are written between quotes without escapes, so only contents free of
quotes and backslashes can be read back.
-/

namespace MiniLisp.Value

def boolText (b : Bool) : String :=
  if b then "True" else "False"

mutual

/-- Writes a value in front of `rest`. -/
def write : Value → List Char → List Char
  | atom name, rest => name.toList ++ rest
  | list items, rest => '(' :: writeAll items (')' :: rest)
  | dotted head tail, rest => '(' :: writeAll head (' ' :: '.' :: ' ' :: write tail (')' :: rest))
  | number n, rest => Decimal.chars n ++ rest
  | string contents, rest => '"' :: (contents.toList ++ '"' :: rest)
  | bool b, rest => (boolText b).toList ++ rest

def writeAll : List Value → List Char → List Char
  | [], rest => rest
  | [v], rest => write v rest
  | v :: w :: vs, rest => write v (' ' :: writeAll (w :: vs) rest)

end

def chars (v : Value) : List Char :=
  v.write []

def text (v : Value) : String :=
  String.ofList v.chars

mutual

theorem write_append (s t : List Char) : ∀ v : Value, v.write (s ++ t) = v.write s ++ t
  | atom _ => by simp [write]
  | list items => by
      have hitems := writeAll_append (')' :: s) t items
      simpa [write] using hitems
  | dotted head tail => by
      have htail := write_append (')' :: s) t tail
      have hhead := writeAll_append (' ' :: '.' :: ' ' :: tail.write (')' :: s)) t head
      simp only [List.cons_append] at htail hhead
      simp [write, htail, hhead]
  | number _ => by simp [write]
  | string _ => by simp [write]
  | bool _ => by simp [write]

theorem writeAll_append (s t : List Char) :
    ∀ vs : List Value, writeAll vs (s ++ t) = writeAll vs s ++ t
  | [] => by simp [writeAll]
  | [v] => by simpa [writeAll] using write_append s t v
  | v :: w :: vs => by
      have hrest := writeAll_append s t (w :: vs)
      have hv := write_append (' ' :: writeAll (w :: vs) s) t v
      simp only [List.cons_append] at hv
      rw [writeAll, writeAll, hrest, hv]

end

theorem write_eq (v : Value) (rest : List Char) : v.write rest = v.chars ++ rest := by
  simpa [chars] using write_append [] rest v

end MiniLisp.Value
