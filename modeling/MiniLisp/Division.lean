/-!
Division of integers with remainder, rounding down or toward zero. Nothing can be divided by zero.
-/

namespace MiniLisp.Division

/-- What `f` gives for two integers, unless the second is zero. -/
def unlessZero (f : Int → Int → Int) (a b : Int) : Option Int :=
  if b = 0 then none else some (f a b)

@[simp] theorem unlessZero_zero (f : Int → Int → Int) (a : Int) : unlessZero f a 0 = none := rfl

theorem unlessZero_of_ne {b : Int} (h : b ≠ 0) (f : Int → Int → Int) (a : Int) :
    unlessZero f a b = some (f a b) :=
  if_neg h

def floorQuotient? : Int → Int → Option Int :=
  unlessZero Int.fdiv

/-- What is left of `a` beside `floorQuotient?`; it has the sign of `b`. -/
def floorRemainder? : Int → Int → Option Int :=
  unlessZero Int.fmod

def truncQuotient? : Int → Int → Option Int :=
  unlessZero Int.tdiv

/-- What is left of `a` beside `truncQuotient?`; it has the sign of `a`. -/
def truncRemainder? : Int → Int → Option Int :=
  unlessZero Int.tmod

end MiniLisp.Division
