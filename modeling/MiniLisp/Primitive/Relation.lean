import MiniLisp.Primitive.Connective

/-!
Comparing two arguments as numbers or as texts. Texts are compared character by character, by code
point.
-/

namespace MiniLisp

inductive Relation where
  | equal
  | notEqual
  | less
  | greater
  | lessEqual
  | greaterEqual
  deriving DecidableEq

namespace Relation

/-- Whether two things that compare like `o` are in the relation. -/
def holds : Relation → Ordering → Bool
  | equal, o => o.isEq
  | notEqual, o => o.isNe
  | less, o => o.isLT
  | greater, o => o.isGT
  | lessEqual, o => o.isLE
  | greaterEqual, o => o.isGE

def onNumbers (r : Relation) (args : List Value) : Except EvalError Value := do
  let (a, b) ← operands Value.toInt args
  return .bool (r.holds (compare a b))

def onTexts (r : Relation) (args : List Value) : Except EvalError Value := do
  let (a, b) ← operands Value.toText args
  return .bool (r.holds (compare a b))

end Relation

end MiniLisp
