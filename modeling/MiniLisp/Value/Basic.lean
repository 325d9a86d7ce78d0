/-!
Values: the expressions that are read and the results of evaluating them.
-/

namespace MiniLisp

inductive Value where
  | atom (name : String)
  | list (items : List Value)
  /-- A list with a last part after a dot, such as `(a b . c)`. -/
  | dotted (head : List Value) (tail : Value)
  | number (n : Int)
  | string (contents : String)
  | bool (b : Bool)

namespace Value

/-- Induction on values with one hypothesis for all elements of a list. -/
@[elab_as_elim]
theorem induction {motive : Value → Prop}
    (atom : ∀ name, motive (atom name))
    (list : ∀ items, (∀ v ∈ items, motive v) → motive (list items))
    (dotted : ∀ head tail, (∀ v ∈ head, motive v) → motive tail → motive (dotted head tail))
    (number : ∀ n, motive (number n))
    (string : ∀ contents, motive (string contents))
    (bool : ∀ b, motive (bool b)) (v : Value) : motive v :=
  @rec motive (fun items => ∀ v ∈ items, motive v)
    atom list dotted number string bool (by simp)
    (fun _ _ hhead htail => by simpa using ⟨hhead, htail⟩) v

mutual

def same : Value → Value → Bool
  | atom a, atom b => a == b
  | list xs, list ys => sameAll xs ys
  | dotted xs x, dotted ys y => sameAll xs ys && same x y
  | number m, number n => m == n
  | string a, string b => a == b
  | bool a, bool b => a == b
  | _, _ => false

def sameAll : List Value → List Value → Bool
  | [], [] => true
  | x :: xs, y :: ys => same x y && sameAll xs ys
  | _, _ => false

end

mutual

theorem same_iff : ∀ v w : Value, same v w = true ↔ v = w
  | atom _, w => by cases w <;> simp [same]
  | list xs, w => by cases w <;> simp [same, sameAll_iff xs]
  | dotted xs x, w => by cases w <;> simp [same, sameAll_iff xs, same_iff x]
  | number _, w => by cases w <;> simp [same]
  | string _, w => by cases w <;> simp [same]
  | bool _, w => by cases w <;> simp [same]

theorem sameAll_iff : ∀ xs ys : List Value, sameAll xs ys = true ↔ xs = ys
  | [], ys => by cases ys <;> simp [sameAll]
  | x :: xs, ys => by cases ys <;> simp [sameAll, same_iff x, sameAll_iff xs]

end

instance : DecidableEq Value := fun v w =>
  decidable_of_iff (same v w = true) (same_iff v w)

/-- The form `(quote v)`, which evaluates to `v`. -/
def quoted (v : Value) : Value :=
  list [atom "quote", v]

def isSelfEvaluating : Value → Bool
  | number _ => true
  | string _ => true
  | bool _ => true
  | _ => false

mutual

/-- How many lists stand around the innermost part of a value. -/
def depth : Value → Nat
  | list items => depthAll items + 1
  | dotted head tail => max (depthAll head) (depth tail) + 1
  | _ => 0

def depthAll : List Value → Nat
  | [] => 0
  | v :: vs => max (depth v) (depthAll vs)

end

mutual

def size : Value → Nat
  | list items => sizeAll items + 1
  | dotted head tail => sizeAll head + size tail + 1
  | _ => 1

def sizeAll : List Value → Nat
  | [] => 0
  | v :: vs => size v + sizeAll vs

end

end Value

end MiniLisp
