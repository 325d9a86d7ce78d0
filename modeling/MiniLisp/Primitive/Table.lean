import MiniLisp.Primitive.Arithmetic
import MiniLisp.Primitive.Connective
import MiniLisp.Primitive.Relation

/-!
The primitive functions, their names, and calling one by its name.
-/

namespace MiniLisp

inductive Primitive where
  | arithmetic (op : Arithmetic)
  | numbers (r : Relation)
  | connective (c : Connective)
  | texts (r : Relation)
  deriving DecidableEq

namespace Primitive

def table : List (String × Primitive) :=
  [("+", arithmetic .add),
   ("-", arithmetic .sub),
   ("*", arithmetic .mul),
   ("/", arithmetic .div),
   ("mod", arithmetic .mod),
   ("quotient", arithmetic .quotient),
   ("remainder", arithmetic .remainder),
   ("=", numbers .equal),
   ("<", numbers .less),
   (">", numbers .greater),
   ("/=", numbers .notEqual),
   (">=", numbers .greaterEqual),
   ("<=", numbers .lessEqual),
   ("&&", connective .and),
   ("||", connective .or),
   ("string=?", texts .equal),
   ("string<?", texts .less),
   ("string>?", texts .greater),
   ("string<=?", texts .lessEqual),
   ("string>=?", texts .greaterEqual)]

def names : List String :=
  table.map Prod.fst

def find? (name : String) : Option Primitive :=
  table.lookup name

def accepts : Primitive → Nat → Bool
  | arithmetic _, count => decide (2 ≤ count)
  | _, count => count == 2

def call : Primitive → List Value → Except EvalError Value
  | arithmetic op, args => op.fold args
  | numbers r, args => r.onNumbers args
  | connective c, args => c.onBools args
  | texts r, args => r.onTexts args

end Primitive

def apply (name : String) (args : List Value) : Except EvalError Value :=
  match Primitive.find? name with
  | none => .error (.unknownFunction "Unrecognized primitive function args" name)
  | some p => if p.accepts args.length then p.call args else .error (.argumentCount 2 args)

end MiniLisp
