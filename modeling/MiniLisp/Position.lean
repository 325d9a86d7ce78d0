/-!
Places in a source text. Lines and columns both start at 1. A column counts characters, and only
a line feed starts a new line.
-/

namespace MiniLisp

structure Position where
  line : Nat
  column : Nat
  deriving DecidableEq

namespace Position

def start : Position :=
  ⟨1, 1⟩

/-- The place just past the character `c` that stands at `p`. -/
def next (p : Position) (c : Char) : Position :=
  if c = '\n' then ⟨p.line + 1, 1⟩ else ⟨p.line, p.column + 1⟩

def after (p : Position) (text : List Char) : Position :=
  text.foldl next p

@[simp] theorem after_nil (p : Position) : p.after [] = p := rfl

@[simp] theorem after_cons (p : Position) (c : Char) (text : List Char) :
    p.after (c :: text) = (p.next c).after text := rfl

@[simp] theorem after_append (p : Position) (s t : List Char) :
    p.after (s ++ t) = (p.after s).after t :=
  List.foldl_append

def describe (p : Position) : String :=
  s!"line {p.line}, column {p.column}"

end Position

end MiniLisp
