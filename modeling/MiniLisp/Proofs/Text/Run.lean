/-!
Runs of characters with a property that are as long as they can be.
-/

namespace MiniLisp.Text

/-- `Run part run rest` says that all characters of `run` have a property and that the next one,
if any, does not. -/
structure Run (part : Char → Bool) (run rest : List Char) : Prop where
  inside : ∀ c ∈ run, part c = true
  stops : ∀ c ∈ rest.head?, part c = false

namespace Run

variable {part : Char → Bool} {run rest : List Char}

theorem takeWhile_append (h : Run part run rest) : (run ++ rest).takeWhile part = run := by
  rw [List.takeWhile_append_of_pos h.inside]
  cases rest with
  | nil => simp
  | cons c rest => simp [h.stops c rfl]

theorem dropWhile_append (h : Run part run rest) : (run ++ rest).dropWhile part = rest := by
  rw [List.dropWhile_append_of_pos h.inside]
  cases rest with
  | nil => simp
  | cons c rest => simp [h.stops c rfl]

theorem of_takeWhile (part : Char → Bool) (cs : List Char) :
    Run part (cs.takeWhile part) (cs.dropWhile part) where
  inside := List.all_eq_true.mp List.all_takeWhile
  stops c hc := by
    have hstop := List.head?_dropWhile_not part cs
    rw [Option.mem_def] at hc
    simpa [hc] using hstop

theorem unique {run' rest' : List Char} (h : Run part run rest) (h' : Run part run' rest')
    (heq : run ++ rest = run' ++ rest') : run = run' ∧ rest = rest' := by
  constructor
  · rw [← h.takeWhile_append, heq, h'.takeWhile_append]
  · rw [← h.dropWhile_append, heq, h'.dropWhile_append]

end Run

end MiniLisp.Text
