import MiniLisp.Proofs.Reader.Completion
import MiniLisp.Proofs.Token.Positions

/-!
Errors of the grammar are found as early as possible. The tokens before the one that is reported can
be completed within the limit, and once that token is there nothing that follows can make up for it.
A token after a complete expression is likewise reported only if nothing is wrong with what stands
before it.
-/

namespace MiniLisp

/-- Whether some tokens after these let an expression be read from the front. -/
def Viable (scope : Scope) (lexemes : List Lexeme) : Prop :=
  ∃ more v rest, readExpression scope (lexemes ++ more) = (.ok v, rest)

variable {limit : Nat} {stop : Position}

theorem Reader.Took.viable {reader : Reader} {lexemes : List Lexeme}
    (h : reader.Took limit (lexemes.map Lexeme.token)) : Viable (.top limit stop) lexemes := by
  obtain ⟨v, hv⟩ := h.exists_derives
  let more : List Lexeme := reader.completion.map fun token => ⟨token, stop⟩
  have htokens : more.map Lexeme.token = reader.completion := by
    simp [more, Function.comp_def]
  have hderives : Derives limit ((lexemes ++ more).map Lexeme.token) v := by
    rw [List.map_append, htokens]
    exact hv
  refine ⟨more, v, [], ?_⟩
  rw [← List.append_nil (lexemes ++ more)]
  exact readExpression_of_derives hderives

/-- No token after one that cannot be taken is looked at. -/
theorem Reader.Reaches.not_viable {scope : Scope} {before : List Lexeme} {lexeme : Lexeme}
    {last : Reader} {e : ParseError} (h : Reaches (start scope) before last)
    (hstep : last.step lexeme = .error e) : ¬ Viable scope (before ++ [lexeme]) := by
  rintro ⟨more, v, rest, hread⟩
  rw [readExpression, List.append_assoc, h.run_append, List.singleton_append, run, hstep] at hread
  cases hread

/-- A failure at a token, rather than at the end, comes as early as it can. -/
theorem exists_of_readExpression_eq_error {lexemes rest : List Lexeme} {e : ParseError}
    (h : readExpression (.top limit stop) lexemes = (.error e, rest))
    (hcause : e.cause ≠ .unexpectedEnd) :
    ∃ before lexeme, lexemes = before ++ lexeme :: rest ∧ e.position = lexeme.position ∧
      Viable (.top limit stop) before ∧ ¬ Viable (.top limit stop) (before ++ [lexeme]) := by
  rcases Reader.exists_reaches_of_run h with
    ⟨last, -, rfl, -⟩ | ⟨before, lexeme, last, hlexemes, hlast, hstep⟩
  · exact absurd rfl hcause
  · have hposition : e.position = lexeme.position := by
      rcases Reader.step_eq_error hstep with ⟨message, rfl⟩ | rfl <;> rfl
    have htook := hlast.took (Reader.took_start limit stop)
    exact ⟨before, lexeme, hlexemes, hposition, htook.viable, hlast.not_viable hstep⟩

/-! ### Tokens after a complete expression -/

theorem skipBlank_append_cons {before after : List Lexeme} {extra : Lexeme}
    (hbefore : AtMostBlank (before.map Lexeme.token))
    (h : skipBlank (before ++ extra :: after) = extra :: after) (more : List Lexeme) :
    skipBlank (before ++ extra :: more) = extra :: more := by
  rcases hbefore with hbefore | hbefore
  · obtain rfl := List.map_eq_nil_iff.mp hbefore
    refine skipBlank_of_ne_blank ?_ more
    intro hblank
    obtain ⟨token, p⟩ := extra
    obtain rfl : token = .blank := hblank
    have hlength : after.length = (⟨.blank, p⟩ :: after : List Lexeme).length :=
      congrArg List.length h
    simp at hlength
  · obtain ⟨⟨token, p⟩, rfl, htoken⟩ := List.map_eq_singleton_iff.mp hbefore
    obtain rfl : token = .blank := htoken
    rfl

theorem readExpression_ne_trailingToken {scope : Scope} {lexemes rest : List Lexeme}
    {text : String} {p : Position} :
    readExpression scope lexemes ≠ (.error ⟨.trailingToken text, p⟩, rest) := by
  intro h
  rcases Reader.exists_reaches_of_run h with ⟨_, -, he, -⟩ | ⟨_, _, _, -, -, hstep⟩
  · cases he
  · rcases Reader.step_eq_error hstep with ⟨message, he⟩ | he <;> cases he

theorem Lexemes.exists_of_parse_eq_trailingToken {lexemes : Lexemes} {text : String}
    {p : Position} (h : lexemes.parse limit = .error ⟨.trailingToken text, p⟩) :
    ∃ before extra after v, lexemes.items = before ++ extra :: after ∧ p = extra.position ∧
      text = extra.token.describe ∧ (∀ stop, parse limit ⟨before, stop⟩ = .ok v) ∧
      ∀ more stop, parse limit ⟨before ++ extra :: more, stop⟩ =
        .error ⟨.trailingToken text, p⟩ := by
  obtain ⟨before, hbefore, hitems⟩ := skipBlank_append lexemes.items
  unfold parse at h
  split at h
  · next e rest hread =>
      cases h
      exact absurd hread readExpression_ne_trailingToken
  · next v rest hread =>
      obtain ⟨used, hused, hderives⟩ := derives_of_readExpression hread
      obtain ⟨between, hbetween, hrest⟩ := skipBlank_append rest
      split at h
      · cases h
      · next extra after hextra =>
          cases h
          rw [hextra] at hrest
          refine ⟨before ++ (used ++ between), extra, after, v, ?_, rfl, rfl, ?_, ?_⟩
          · rw [hitems, hused, hrest, List.append_assoc, List.append_assoc]
          · intro stop
            refine parse_eq_ok_iff.mpr ⟨_, _, _, ?_, hbefore, hbetween, hderives⟩
            rw [List.map_append, List.map_append, List.append_assoc]
          · -- What follows the extra token is never looked at.
            intro more stop
            have hskip := skipBlank_append_cons hbetween (hrest ▸ hextra) more
            unfold parse
            rw [List.append_assoc, List.append_assoc, skipBlank_append_of_derives hbefore hderives,
              readExpression_of_derives hderives]
            simp only [hskip]

/-- Grammar errors are reported at the earliest possible token. If reading an expression fails at a
token, the error has the position of the last token taken, the tokens before it can be completed
within the same limit, and no tokens after it can complete them. If a source text has a token too
many, the text in front of that token has just the tokens before it and is complete, and with the
token there is the same complaint whatever follows. -/
theorem readExpression_fails_earliest (limit : Nat) :
    (∀ (stop : Position) (lexemes rest : List Lexeme) (e : ParseError),
      readExpression (.top limit stop) lexemes = (.error e, rest) →
      ((∃ text, e.cause = .unexpectedToken text) ∨ ∃ n, e.cause = .nestingTooDeep n) →
      ∃ before lexeme, lexemes = before ++ lexeme :: rest ∧ e.position = lexeme.position ∧
        Viable (.top limit stop) before ∧ ¬ Viable (.top limit stop) (before ++ [lexeme])) ∧
    ∀ (source text : String) (p : Position),
      parse limit source = .error ⟨.trailingToken text, p⟩ →
      ∃ lexemes before extra after, tokenize source = .ok lexemes ∧
        lexemes.items = before ++ extra :: after ∧ p = extra.position ∧
        text = extra.token.describe ∧
        (∃ front rest v, source = front ++ rest ∧ tokenize front = .ok ⟨before, p⟩ ∧
          parse limit front = .ok v) ∧
        ∀ more stop, Lexemes.parse limit ⟨before ++ extra :: more, stop⟩ =
          .error ⟨.trailingToken text, p⟩ := by
  refine ⟨?_, ?_⟩
  · intro stop lexemes rest e h hcause
    refine exists_of_readExpression_eq_error h ?_
    rcases hcause with ⟨text, hcause⟩ | ⟨n, hcause⟩ <;> simp [hcause]
  · intro source text p h
    cases hscan : tokenize source with
    | error e =>
        -- No fault of a text is a trailing token.
        rw [parse_of_tokenize_error hscan] at h
        cases h
        obtain ⟨tokens, front, rest, fault, -, -, hfault, he⟩ :=
          Lexemes.scan_eq_error_iff.mp hscan
        cases hfault <;> cases he
    | ok lexemes =>
        rw [parse_of_tokenize hscan] at h
        obtain ⟨before, extra, after, v, hitems, rfl, rfl, hbefore, hmore⟩ :=
          Lexemes.exists_of_parse_eq_trailingToken h
        obtain ⟨front, rest, hsource, hfront⟩ := Lexemes.scan_front hscan hitems
        have hfront' : tokenize (String.ofList front) = .ok ⟨before, extra.position⟩ := by
          rw [tokenize, String.toList_ofList, hfront]
        refine ⟨lexemes, before, extra, after, rfl, hitems, rfl, rfl, ?_, hmore⟩
        refine ⟨String.ofList front, String.ofList rest, v, ?_, hfront', ?_⟩
        · rw [← String.ofList_append, ← hsource, String.ofList_toList]
        · rw [parse_of_tokenize hfront']
          exact hbefore extra.position

/-- In `(. 2 )` the white space behind the tail is wrong already, since nothing but the parenthesis
can follow. -/
theorem readExpression_fails_earliest_behind_tail :
    readExpression (.top 1 ⟨1, 7⟩) [⟨.lparen, ⟨1, 1⟩⟩, ⟨.dot, ⟨1, 2⟩⟩, ⟨.blank, ⟨1, 3⟩⟩,
        ⟨.number 2, ⟨1, 4⟩⟩, ⟨.blank, ⟨1, 5⟩⟩, ⟨.rparen, ⟨1, 6⟩⟩] =
      (.error ⟨.unexpectedToken "Expected ')', found whitespace", ⟨1, 5⟩⟩,
        [⟨.rparen, ⟨1, 6⟩⟩]) ∧
    Viable (.top 1 ⟨1, 7⟩) [⟨.lparen, ⟨1, 1⟩⟩, ⟨.dot, ⟨1, 2⟩⟩, ⟨.blank, ⟨1, 3⟩⟩,
      ⟨.number 2, ⟨1, 4⟩⟩] ∧
    ¬ Viable (.top 1 ⟨1, 7⟩) [⟨.lparen, ⟨1, 1⟩⟩, ⟨.dot, ⟨1, 2⟩⟩, ⟨.blank, ⟨1, 3⟩⟩,
      ⟨.number 2, ⟨1, 4⟩⟩, ⟨.blank, ⟨1, 5⟩⟩] := by
  refine ⟨rfl, ?_⟩
  obtain ⟨before, lexeme, hlexemes, -, hviable, hnot⟩ :=
    (readExpression_fails_earliest 1).1 ⟨1, 7⟩
      ([⟨.lparen, ⟨1, 1⟩⟩, ⟨.dot, ⟨1, 2⟩⟩, ⟨.blank, ⟨1, 3⟩⟩, ⟨.number 2, ⟨1, 4⟩⟩] ++
        [⟨.blank, ⟨1, 5⟩⟩, ⟨.rparen, ⟨1, 6⟩⟩])
      _ ⟨.unexpectedToken "Expected ')', found whitespace", ⟨1, 5⟩⟩ rfl (.inl ⟨_, rfl⟩)
  obtain ⟨rfl, hrest⟩ := List.append_inj' hlexemes rfl
  obtain ⟨rfl, -⟩ := List.cons.inj hrest
  exact ⟨hviable, hnot⟩

end MiniLisp
