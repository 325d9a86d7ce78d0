import Mathlib.Data.Nat.Digits.Defs
import Mathlib.Data.String.Basic
import MiniLisp.Eval
import MiniLisp.Proofs.Division

/-!
Typed expressions and what they mean. A typing derivation gives a value one of three types and at
the same time says how it is to be understood. Its meaning is an integer, a truth value or a text,
or nothing when something is divided by zero; which application is to blame is told by a list of
all that fail, in the order in which they would be reached from the left and from the inside.
-/

namespace MiniLisp

/-! ### Numerals -/

namespace Decimal

/-- An integer in decimal notation: a minus sign if it is negative, and the digits of its absolute
value in base ten, the most significant first. -/
def numeral (n : ℤ) : String :=
  String.ofList <|
    if n = 0 then ['0']
    else (if n < 0 then ['-'] else []) ++
      ((Nat.digits 10 n.natAbs).map fun d => Char.ofNat ('0'.toNat + d)).reverse

theorem toDigits_eq_reverse {n : ℕ} (h : n ≠ 0) :
    Nat.toDigits 10 n = ((Nat.digits 10 n).map fun d => Char.ofNat ('0'.toNat + d)).reverse := by
  have hdigit : ∀ d < 10, Nat.digitChar d = Char.ofNat ('0'.toNat + d) := by decide
  induction n using Nat.strongRecOn with
  | ind n ih =>
      rw [Nat.digits_def' (by decide) (Nat.pos_of_ne_zero h), List.map_cons, List.reverse_cons,
        ← hdigit _ (Nat.mod_lt n (by decide))]
      by_cases hn : n < 10
      · rw [Nat.toDigits_of_lt_base hn, Nat.div_eq_of_lt hn, Nat.mod_eq_of_lt hn]
        simp
      · rw [Nat.toDigits_of_base_le (by decide) (by omega), ih _ (by omega) (by omega)]

theorem text_eq_numeral (n : ℤ) : text n = numeral n := by
  cases n with
  | ofNat n =>
      by_cases hn : n = 0
      · subst hn
        rfl
      · have hneg : ¬ (n : ℤ) < 0 := Int.not_lt.mpr (Int.natCast_nonneg n)
        simp [text, chars, numeral, toDigits_eq_reverse hn, hn, hneg]
  | negSucc n =>
      have hn := toDigits_eq_reverse (Nat.succ_ne_zero n)
      simp [text, chars, numeral, hn, Int.negSucc_ne_zero, Int.negSucc_lt_zero]

end Decimal

/-! ### Types -/

inductive Ty where
  | int
  | bool
  | text
  deriving DecidableEq

namespace Ty

def Carrier : Ty → Type
  | int => Int
  | bool => Bool
  | text => String

def literal : (τ : Ty) → τ.Carrier → Value
  | int, n => .number n
  | bool, b => .bool b
  | text, s => .string s

/-- The text that stands for an element of a type in comparisons. -/
def printed : (τ : Ty) → τ.Carrier → String
  | int, n => Decimal.numeral n
  | bool, true => "True"
  | bool, false => "False"
  | text, s => s

end Ty

def arithmeticNames : List (String × Arithmetic) :=
  [("+", .add), ("-", .sub), ("*", .mul), ("/", .div), ("mod", .mod), ("quotient", .quotient),
   ("remainder", .remainder)]

def numberRelations : List (String × Relation) :=
  [("=", .equal), ("<", .less), (">", .greater), ("/=", .notEqual), (">=", .greaterEqual),
   ("<=", .lessEqual)]

def connectives : List (String × Connective) :=
  [("&&", .and), ("||", .or)]

def textRelations : List (String × Relation) :=
  [("string=?", .equal), ("string<?", .less), ("string>?", .greater), ("string<=?", .lessEqual),
   ("string>=?", .greaterEqual)]

mutual

/-- Derivations that a value has a type. -/
inductive Typing : Value → Ty → Type where
  | number (n : Int) : Typing (.number n) .int
  | bool (b : Bool) : Typing (.bool b) .bool
  | string (contents : String) : Typing (.string contents) .text
  | arithmetic {name : String} {op : Arithmetic} {a b : Value} {more : List Value}
      (hname : (name, op) ∈ arithmeticNames) (args : Typings (a :: b :: more)) :
      Typing (.list (.atom name :: a :: b :: more)) .int
  | numbers {name : String} {r : Relation} {a b : Value}
      (hname : (name, r) ∈ numberRelations) (left : Typing a .int) (right : Typing b .int) :
      Typing (.list [.atom name, a, b]) .bool
  | connective {name : String} {c : Connective} {a b : Value}
      (hname : (name, c) ∈ connectives) (left : Typing a .bool) (right : Typing b .bool) :
      Typing (.list [.atom name, a, b]) .bool
  /-- A comparison of texts, whatever the types of the two sides. -/
  | texts {name : String} {r : Relation} {a b : Value} {σ τ : Ty}
      (hname : (name, r) ∈ textRelations) (left : Typing a σ) (right : Typing b τ) :
      Typing (.list [.atom name, a, b]) .bool

inductive Typings : List Value → Type where
  | nil : Typings []
  | cons {v : Value} {vs : List Value} (first : Typing v .int) (others : Typings vs) :
      Typings (v :: vs)

end

/-- The integer that an operation gives for two integers, if any: exact sums, differences and
products, and the exact quotient rounded down or toward zero with what it leaves. -/
def Arithmetic.meaning : Arithmetic → Int → Int → Option Int
  | add, a, b => some (a + b)
  | sub, a, b => some (a - b)
  | mul, a, b => some (a * b)
  | div, a, b => if b = 0 then none else some ⌊(a / b : ℚ)⌋
  | mod, a, b => if b = 0 then none else some (a - b * ⌊(a / b : ℚ)⌋)
  | quotient, a, b => if b = 0 then none else some (Division.towardZero (a / b : ℚ))
  | remainder, a, b => if b = 0 then none else some (a - b * Division.towardZero (a / b : ℚ))

def Arithmetic.meaningAll (op : Arithmetic) : List Int → Option Int
  | [] => none
  | n :: ns => ns.foldlM op.meaning n

def Relation.Between {α : Type} [LinearOrder α] : Relation → α → α → Prop
  | equal, a, b => a = b
  | notEqual, a, b => a ≠ b
  | less, a, b => a < b
  | greater, a, b => b < a
  | lessEqual, a, b => a ≤ b
  | greaterEqual, a, b => b ≤ a

instance {α : Type} [LinearOrder α] (r : Relation) (a b : α) : Decidable (r.Between a b) :=
  match r with
  | .equal => inferInstanceAs (Decidable (a = b))
  | .notEqual => inferInstanceAs (Decidable (a ≠ b))
  | .less => inferInstanceAs (Decidable (a < b))
  | .greater => inferInstanceAs (Decidable (b < a))
  | .lessEqual => inferInstanceAs (Decidable (a ≤ b))
  | .greaterEqual => inferInstanceAs (Decidable (b ≤ a))

def Connective.meaning : Connective → Bool → Bool → Bool
  | and => Bool.and
  | or => Bool.or

mutual

/-- What an expression stands for, if nothing in it is divided by zero. -/
def Typing.value {v : Value} {τ : Ty} : Typing v τ → Option τ.Carrier
  | .number n => some n
  | .bool b => some b
  | .string contents => some contents
  | @Typing.arithmetic _ op _ _ _ _ args => args.values.bind op.meaningAll
  | @Typing.numbers _ r _ _ _ left right =>
      left.value.bind fun (m : Int) => right.value.bind fun (n : Int) => some (decide (r.Between m n))
  | @Typing.connective _ c _ _ _ left right =>
      left.value.bind fun b => right.value.bind fun b' => some (c.meaning b b')
  | @Typing.texts _ r _ _ σ τ _ left right =>
      left.value.bind fun x => right.value.bind fun y =>
        some (decide (r.Between (σ.printed x) (τ.printed y)))

def Typings.values {vs : List Value} : Typings vs → Option (List Int)
  | .nil => some []
  | .cons first others => first.value.bind fun n => others.values.bind fun ns => some (n :: ns)

end

mutual

/-- The names of all applications that divide by zero although all their arguments have a meaning,
those further left and further inside first. -/
def Typing.faults {v : Value} {τ : Ty} : Typing v τ → List String
  | .number _ => []
  | .bool _ => []
  | .string _ => []
  | @Typing.arithmetic name op _ _ _ _ args =>
      args.faults ++
        match args.values with
        | some ns => if op.meaningAll ns = none then [name] else []
        | none => []
  | .numbers _ left right => left.faults ++ right.faults
  | .connective _ left right => left.faults ++ right.faults
  | .texts _ left right => left.faults ++ right.faults

def Typings.faults {vs : List Value} : Typings vs → List String
  | .nil => []
  | .cons first others => first.faults ++ others.faults

end

end MiniLisp
