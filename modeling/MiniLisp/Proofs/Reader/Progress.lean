import MiniLisp.Proofs.Reader.Exactness

/-!
How far the reader gets. It takes one token after the other and never goes back, so what it does
with the tokens that are left depends on them and on where it stands. A run that fails has come to a
token that it cannot take, or to the end, by way of all the tokens before.
-/

namespace MiniLisp.Reader

variable {limit : Nat} {taken : List Token} {reader last : Reader} {lexemes : List Lexeme}

/-- `Reaches reader lexemes last` says that the tokens lead from `reader` to `last`, and that the
expression is not complete before or after any of them. -/
inductive Reaches : Reader → List Lexeme → Reader → Prop where
  | nil {reader : Reader} : Reaches reader [] reader
  | cons {reader next last : Reader} {lexeme : Lexeme} {lexemes : List Lexeme} :
      reader.step lexeme = .ok (.more next) → Reaches next lexemes last →
        Reaches reader (lexeme :: lexemes) last

theorem Reaches.run_append (h : Reaches reader lexemes last) (more : List Lexeme) :
    reader.run (lexemes ++ more) = last.run more := by
  induction h with
  | nil => rfl
  | cons hstep _ ih =>
      rw [List.cons_append, run_cons hstep]
      exact ih

theorem Reaches.took (h : Reaches reader lexemes last) (htook : reader.Took limit taken) :
    last.Took limit (taken ++ lexemes.map Lexeme.token) := by
  induction h generalizing taken with
  | nil => simpa using htook
  | cons hstep _ ih =>
      have hlast := ih (took_step htook hstep)
      simpa using hlast

theorem enter_eq_error {frame : Frame} {p : Position} {e : ParseError}
    (h : reader.enter frame p = .error e) : e = ⟨.nestingTooDeep reader.scope.limit, p⟩ := by
  unfold enter Scope.enter at h
  split at h
  · cases h
  · cases h
    rfl

/-- A step fails at its token, for what the token is or for the level that it would open. -/
theorem step_eq_error {lexeme : Lexeme} {e : ParseError} (h : reader.step lexeme = .error e) :
    (∃ message, e = ⟨.unexpectedToken message, lexeme.position⟩) ∨
      e = ⟨.nestingTooDeep reader.scope.limit, lexeme.position⟩ := by
  unfold step at h
  split at h
  case h_1 =>
      unfold stepExpression at h
      split at h
      case h_4 => exact .inr (enter_eq_error h)
      case h_5 => exact .inr (enter_eq_error h)
      case h_8 =>
          cases h
          exact .inl ⟨_, rfl⟩
      all_goals cases h
  case h_4 =>
      cases h
      exact .inl ⟨_, rfl⟩
  case h_6 =>
      cases h
      exact .inl ⟨_, rfl⟩
  case h_8 =>
      cases h
      exact .inl ⟨_, rfl⟩
  all_goals cases h

theorem step_ne_unexpectedEnd {lexeme : Lexeme} {p : Position} :
    reader.step lexeme ≠ .error ⟨.unexpectedEnd, p⟩ := by
  intro h
  rcases step_eq_error h with ⟨message, he⟩ | he <;> cases he

/-- A run fails at the end of the tokens, all of which it has taken, or at the last token that it
has taken. -/
theorem exists_reaches_of_run {rest : List Lexeme} {e : ParseError}
    (h : reader.run lexemes = (.error e, rest)) :
    (∃ last, Reaches reader lexemes last ∧ e = ⟨.unexpectedEnd, last.scope.stop⟩ ∧ rest = []) ∨
      ∃ before lexeme last, lexemes = before ++ lexeme :: rest ∧ Reaches reader before last ∧
        last.step lexeme = .error e := by
  induction lexemes generalizing reader with
  | nil =>
      obtain ⟨rfl, rfl⟩ : ParseError.mk .unexpectedEnd reader.scope.stop = e ∧ [] = rest := by
        simpa [run] using h
      exact .inl ⟨reader, .nil, rfl, rfl⟩
  | cons lexeme lexemes ih =>
      cases hstep : reader.step lexeme with
      | error e' =>
          rw [run, hstep] at h
          obtain ⟨rfl, rfl⟩ : e' = e ∧ lexemes = rest := by simpa using h
          exact .inr ⟨[], lexeme, reader, rfl, .nil, hstep⟩
      | ok s =>
          rw [run_cons hstep] at h
          cases s with
          | done v => simp [Step.resume] at h
          | more next =>
              rcases ih h with ⟨last, hlast, he, hrest⟩ | ⟨before, lexeme', last, rfl, hlast, he⟩
              · exact .inl ⟨last, .cons hstep hlast, he, hrest⟩
              · exact .inr ⟨lexeme :: before, lexeme', last, rfl, .cons hstep hlast, he⟩

end MiniLisp.Reader
