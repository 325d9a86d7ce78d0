import MiniLisp.ParseError

/-!
How deep the reader stands and how deep it may go.
-/

namespace MiniLisp

/-- The nesting around a place in the source: how many levels are open, how many may be open, and
where the source ends. -/
structure Scope where
  depth : Nat
  limit : Nat
  stop : Position
  deriving DecidableEq

namespace Scope

def top (limit : Nat) (stop : Position) : Scope :=
  ⟨0, limit, stop⟩

def enter (scope : Scope) (p : Position) : Except ParseError Scope :=
  if scope.depth < scope.limit then .ok { scope with depth := scope.depth + 1 }
  else .error ⟨.nestingTooDeep scope.limit, p⟩

def leave (scope : Scope) : Scope :=
  { scope with depth := scope.depth - 1 }

theorem leave_of_enter {scope inner : Scope} {p : Position} (h : scope.enter p = .ok inner) :
    inner.leave = scope := by
  unfold enter at h
  split at h <;> cases h
  rfl

end Scope

end MiniLisp
