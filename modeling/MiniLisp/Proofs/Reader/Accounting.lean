import MiniLisp.Proofs.Reader.Descent

/-!
What becomes of the tokens. Reading an expression takes tokens from the front, at least one if there
is any, whether it succeeds or fails. A failure is either for want of a token, when all are taken, or
at the last token taken. What was looked at and not taken is left for whoever reads on.
-/

namespace MiniLisp

namespace Reader

variable {reader last : Reader} {lexeme : Lexeme} {lexemes : List Lexeme} {s : Step}

def Step.Within (scope : Scope) : Step → Prop
  | .more reader => reader.scope.limit = scope.limit ∧ reader.scope.stop = scope.stop
  | .done _ => True

theorem within_deliver (scope : Scope) (v : Value) (frames : List Frame) :
    (deliver scope v frames).Within scope := by
  induction frames generalizing scope v with
  | nil => trivial
  | cons frame frames ih =>
      cases frame with
      | quote => exact ih scope.leave v.quoted
      | element read => exact ⟨rfl, rfl⟩
      | tail read => exact ⟨rfl, rfl⟩

theorem within_enter {frame : Frame} {p : Position} (h : reader.enter frame p = .ok s) :
    s.Within reader.scope := by
  unfold enter Scope.enter at h
  split at h <;> cases h
  exact ⟨rfl, rfl⟩

theorem within_step (h : reader.step lexeme = .ok s) : s.Within reader.scope := by
  unfold step at h
  split at h
  case h_1 =>
      unfold stepExpression at h
      split at h
      case h_4 => exact within_enter h
      case h_5 => exact within_enter h
      case h_6 =>
          cases h
          exact within_deliver reader.scope.leave _ _
      case h_7 =>
          cases h
          exact ⟨rfl, rfl⟩
      case h_8 => cases h
      all_goals
        cases h
        exact within_deliver reader.scope _ _
  case h_2 =>
      cases h
      exact within_deliver reader.scope.leave _ _
  case h_7 =>
      cases h
      exact within_deliver reader.scope.leave _ _
  case h_3 =>
      cases h
      exact ⟨rfl, rfl⟩
  case h_5 =>
      cases h
      exact ⟨rfl, rfl⟩
  all_goals cases h

theorem Reaches.within (h : Reaches reader lexemes last) :
    last.scope.limit = reader.scope.limit ∧ last.scope.stop = reader.scope.stop := by
  induction h with
  | nil => exact ⟨rfl, rfl⟩
  | cons hstep _ ih =>
      obtain ⟨hlimit, hstop⟩ := within_step hstep
      exact ⟨ih.1.trans hlimit, ih.2.trans hstop⟩

/-- A run takes the first token and maybe more. -/
theorem run_isSuffix_tail (reader : Reader) (lexemes : List Lexeme) :
    (reader.run lexemes).2 <:+ lexemes.tail := by
  induction lexemes generalizing reader with
  | nil => exact List.suffix_refl []
  | cons lexeme lexemes ih =>
      cases hstep : reader.step lexeme with
      | error e =>
          rw [run, hstep]
          exact List.suffix_refl lexemes
      | ok s =>
          rw [run_cons hstep]
          cases s with
          | done v => exact List.suffix_refl lexemes
          | more next => exact (ih next).trans (List.tail_suffix lexemes)

end Reader

open Descent

variable {scope : Scope} {lexemes rest : List Lexeme} {e : ParseError}

theorem length_readExpression_le (scope : Scope) (lexemes : List Lexeme) :
    (readExpression scope lexemes).2.length ≤ lexemes.length - 1 := by
  rw [← List.length_tail]
  exact (Reader.run_isSuffix_tail (.start scope) lexemes).length_le

theorem eq_nil_of_unexpectedEnd {p : Position}
    (h : readExpression scope lexemes = (.error ⟨.unexpectedEnd, p⟩, rest)) : rest = [] := by
  rcases Reader.exists_reaches_of_run h with ⟨_, -, -, hrest⟩ | ⟨_, _, _, -, -, hstep⟩
  · exact hrest
  · exact absurd hstep Reader.step_ne_unexpectedEnd

theorem exists_last_of_error (h : readExpression scope lexemes = (.error e, rest))
    (hcause : e ≠ ⟨.unexpectedEnd, scope.stop⟩) :
    ∃ before last, before ++ last :: rest = lexemes ∧
      ((∃ text, e = ⟨.unexpectedToken text, last.position⟩) ∨
        e = ⟨.nestingTooDeep scope.limit, last.position⟩) := by
  rcases Reader.exists_reaches_of_run h with
    ⟨reader, hreader, he, -⟩ | ⟨before, last, reader, hlexemes, hreader, hstep⟩
  · rw [hreader.within.2] at he
    exact absurd he hcause
  · refine ⟨before, last, hlexemes.symm, ?_⟩
    have herror := Reader.step_eq_error hstep
    rwa [hreader.within.1] at herror

/-- Each of several readings takes a token, as long as there is one. -/
theorem foldl_readExpression_eq_nil {scopes : List Scope} (h : lexemes.length ≤ scopes.length) :
    scopes.foldl (fun left scope => (readExpression scope left).2) lexemes = [] := by
  induction scopes generalizing lexemes with
  | nil => exact List.length_eq_zero_iff.mp (Nat.le_zero.mp h)
  | cons scope scopes ih =>
      rw [List.length_cons] at h
      exact ih (Nat.le_trans (length_readExpression_le scope lexemes) (by omega))

theorem mem_handedOut_iff {requests : List Request} {lexeme : Lexeme} :
    lexeme ∈ handedOut requests ↔ .taken lexeme ∈ requests := by
  rw [handedOut, List.mem_filterMap]
  constructor
  · rintro ⟨request, hrequest, htoken⟩
    cases request with
    | taken other =>
        cases htoken
        exact hrequest
    | seen other => cases htoken
    | denied => cases htoken
  · intro h
    exact ⟨_, h, rfl⟩

/-- Reading an expression accounts for every token, whatever the tokens are. Reading downwards from
a cursor, with calls as deep as may be needed, ends with the same outcome and leaves the same tokens:
those that were not handed out, among them all that were only looked at. At least one token is
handed out if there is any, so as many readings as there are tokens leave none. The error is that of
an unexpected end just when a token was asked for in vain, and then all tokens are gone. Any other
error is about a token that cannot stand where it does or that opens a level too many, and it has
the place of the last token handed out. -/
theorem readExpression_accounts :
    (∀ (scope : Scope) (lexemes : List Lexeme) (depth : Nat), 2 * lexemes.length < depth →
      ∃ outcome rest requests, readExpression scope lexemes = (outcome, rest) ∧
        call depth scope .expression ⟨lexemes, []⟩ = some (outcome, ⟨rest, requests⟩) ∧
        (rest <:+ lexemes ∧ (lexemes ≠ [] → rest ≠ lexemes)) ∧
        (handedOut requests ++ rest = lexemes ∧
          ∀ lexeme, .seen lexeme ∈ requests → .taken lexeme ∉ requests → lexeme ∈ rest) ∧
        (outcome = .error ⟨.unexpectedEnd, scope.stop⟩ ↔ .denied ∈ requests) ∧
        (.denied ∈ requests → rest = []) ∧
        ∀ e, outcome = .error e → .denied ∉ requests →
          ∃ last, (handedOut requests).getLast? = some last ∧
            ((∃ text, e = ⟨.unexpectedToken text, last.position⟩) ∨
              e = ⟨.nestingTooDeep scope.limit, last.position⟩)) ∧
    ∀ (scopes : List Scope) (lexemes : List Lexeme), lexemes.length ≤ scopes.length →
      scopes.foldl (fun left scope => (readExpression scope left).2) lexemes = [] := by
  refine ⟨?_, fun _ _ => foldl_readExpression_eq_nil⟩
  intro scope lexemes depth hdepth
  obtain ⟨requests, outcome, rest, hread, hcall, haccounts⟩ := exists_call_eq scope hdepth
  have hsplit := haccounts.handedOut_append
  refine ⟨outcome, rest, requests, hread, hcall, ⟨⟨_, hsplit⟩, ?_⟩, ⟨hsplit, ?_⟩,
    haccounts.denied_mem_iff.symm, ?_, ?_⟩
  · rintro hne rfl
    have hlength := length_readExpression_le scope rest
    have hpos := List.length_pos_iff.mpr hne
    rw [hread] at hlength
    dsimp only at hlength
    omega
  · intro lexeme hseen htaken
    have hmem := haccounts.seen_mem lexeme hseen
    rw [← hsplit, List.mem_append, mem_handedOut_iff] at hmem
    exact hmem.resolve_left htaken
  · intro hdenied
    rw [haccounts.denied_mem_iff.mp hdenied] at hread
    exact eq_nil_of_unexpectedEnd hread
  · rintro e rfl hdenied
    have hcause : e ≠ ⟨.unexpectedEnd, scope.stop⟩ := by
      rintro rfl
      exact hdenied (haccounts.denied_mem_iff.mpr rfl)
    obtain ⟨before, last, hlexemes, herror⟩ := exists_last_of_error hread hcause
    have hhanded : handedOut requests = before ++ [last] := by
      refine List.append_cancel_right (hsplit.trans ?_)
      rw [List.append_assoc]
      exact hlexemes.symm
    exact ⟨last, by rw [hhanded, List.getLast?_concat], herror⟩

/-- In `( )` the white space is looked at twice before it is taken and found wrong. -/
theorem readExpression_accounts_blank_in_front :
    call 7 (.top 1 ⟨1, 4⟩) .expression
        ⟨[⟨.lparen, ⟨1, 1⟩⟩, ⟨.blank, ⟨1, 2⟩⟩, ⟨.rparen, ⟨1, 3⟩⟩], []⟩ =
      some (.error ⟨.unexpectedToken "Expected an expression, found whitespace", ⟨1, 2⟩⟩,
        ⟨[⟨.rparen, ⟨1, 3⟩⟩], [.taken ⟨.lparen, ⟨1, 1⟩⟩, .seen ⟨.blank, ⟨1, 2⟩⟩,
          .seen ⟨.blank, ⟨1, 2⟩⟩, .taken ⟨.blank, ⟨1, 2⟩⟩]⟩) ∧
    readExpression (.top 1 ⟨1, 4⟩) [⟨.lparen, ⟨1, 1⟩⟩, ⟨.blank, ⟨1, 2⟩⟩, ⟨.rparen, ⟨1, 3⟩⟩] =
      (.error ⟨.unexpectedToken "Expected an expression, found whitespace", ⟨1, 2⟩⟩,
        [⟨.rparen, ⟨1, 3⟩⟩]) ∧
    (List.replicate 3 (Scope.top 1 ⟨1, 4⟩)).foldl (fun left scope => (readExpression scope left).2)
      [⟨.lparen, ⟨1, 1⟩⟩, ⟨.blank, ⟨1, 2⟩⟩, ⟨.rparen, ⟨1, 3⟩⟩] = [] := by
  obtain ⟨hreads, hrepeated⟩ := readExpression_accounts
  obtain ⟨outcome, rest, requests, hread, hcall, -⟩ :=
    hreads (.top 1 ⟨1, 4⟩) [⟨.lparen, ⟨1, 1⟩⟩, ⟨.blank, ⟨1, 2⟩⟩, ⟨.rparen, ⟨1, 3⟩⟩] 7 (by decide)
  obtain ⟨⟨rfl⟩, ⟨rfl⟩⟩ := Prod.mk.inj (Option.some.inj hcall)
  exact ⟨hcall, hread, hrepeated _ _ (by decide)⟩

end MiniLisp
