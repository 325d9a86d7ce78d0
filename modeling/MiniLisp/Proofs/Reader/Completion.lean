import MiniLisp.Proofs.Reader.Progress
import MiniLisp.Proofs.Reader.Source
import MiniLisp.Proofs.Token.Cut
import MiniLisp.Proofs.Value.Tokens

/-!
Input that is not complete yet. Wherever the reader stands, there is something that would complete
the expression, at the same nesting limit: a number if an expression is due, and a parenthesis for
each list that is open. So the end of the source is unexpected only where more text could follow.
Conversely, the front part of an input that can be read meets no error other than that its end comes
too early.
-/

namespace MiniLisp

/-! ### Completing a source -/

namespace Reader

variable {limit room : Nat} {frames : List Frame} {taken used : List Token} {v : Value}
  {reader : Reader}

def closers : List Frame → List Token
  | [] => []
  | .quote :: frames => closers frames
  | .element _ :: frames => .rparen :: closers frames
  | .tail _ :: frames => .rparen :: closers frames

def completion (reader : Reader) : List Token :=
  match reader.phase with
  | .expression => .number 0 :: closers reader.frames
  | .separator _ => .rparen :: closers reader.frames
  | .dot _ => .blank :: .number 0 :: .rparen :: closers reader.frames
  | .close _ _ => .rparen :: closers reader.frames

/-- An expression in the innermost form is completed by closing the forms around it. -/
theorem Opens.exists_derives (h : Opens limit frames taken room) (hv : Derives room used v) :
    ∃ w, Derives limit (taken ++ (used ++ closers frames)) w := by
  induction h generalizing used v with
  | nil => exact ⟨v, by simpa [closers] using hv⟩
  | quote _ ih =>
      obtain ⟨w, hw⟩ := ih hv.quote
      exact ⟨w, by simpa [closers] using hw⟩
  | element _ hhead ih =>
      obtain ⟨w, hw⟩ := ih (Derives.list_snoc hhead hv)
      exact ⟨w, by simpa [closers] using hw⟩
  | tail _ hhead ih =>
      obtain ⟨w, hw⟩ := ih (Derives.dotted hhead hv)
      exact ⟨w, by simpa [closers] using hw⟩

theorem Took.exists_derives (h : reader.Took limit taken) :
    ∃ w, Derives limit (taken ++ reader.completion) w := by
  cases h with
  | expression _ hopens => exact hopens.exists_derives .number
  | separator _ hopens hhead hv =>
      obtain ⟨w, hw⟩ := hopens.exists_derives (Derives.list_snoc hhead hv)
      exact ⟨w, by simpa [completion] using hw⟩
  | dot _ hopens hhead =>
      obtain ⟨w, hw⟩ := hopens.exists_derives (Derives.dotted hhead (@Derives.number _ 0))
      exact ⟨w, by simpa [completion] using hw⟩
  | close _ hopens hhead hv =>
      obtain ⟨w, hw⟩ := hopens.exists_derives (Derives.dotted hhead hv)
      exact ⟨w, by simpa [completion] using hw⟩

def completionChar : Token → Char
  | .number _ => '0'
  | .blank => ' '
  | _ => ')'

def completionText (reader : Reader) : List Char :=
  reader.completion.map completionChar

theorem splits_zero {tokens : List Token} {rest : List Char} (h : Splits tokens rest)
    (hrest : Value.Bounds rest) : Splits (.number 0 :: tokens) ('0' :: rest) :=
  @Splits.cons (.number 0) tokens ['0'] rest (Value.spelled_toDigits 0)
    (Value.stopsAt_of_bounds (by simp) hrest) h

theorem splits_closers (frames : List Frame) :
    Splits (closers frames) ((closers frames).map completionChar) ∧
      Value.Bounds ((closers frames).map completionChar) := by
  induction frames with
  | nil => exact ⟨.nil, Value.bounds_nil⟩
  | cons frame frames ih =>
      cases frame with
      | quote => exact ih
      | element read => exact ⟨Value.splits_rparen ih.1, Value.bounds_rparen _⟩
      | tail read => exact ⟨Value.splits_rparen ih.1, Value.bounds_rparen _⟩

theorem splits_completion (reader : Reader) :
    Splits reader.completion reader.completionText := by
  obtain ⟨scope, frames, phase⟩ := reader
  obtain ⟨hclosers, hbounds⟩ := splits_closers frames
  cases phase with
  | expression => exact splits_zero hclosers hbounds
  | separator read => exact Value.splits_rparen hclosers
  | dot read =>
      have hclosed := Value.splits_rparen hclosers
      have hzero := splits_zero hclosed (Value.bounds_rparen _)
      exact Value.splits_space hzero (by simp [completionChar, Token.isBlank])
  | close read tail => exact Value.splits_rparen hclosers

theorem stopsAt_rparen (token : Token) (rest : List Char) : token.StopsAt (')' :: rest) := by
  by_cases hblank : token = .blank
  · subst hblank
    simp [Token.StopsAt, Token.goesOn, Token.isBlank]
  · exact Value.stopsAt_of_bounds hblank (Value.bounds_rparen rest)

theorem goesOn_of_mem_getLast?_cons_closedParts {head : List Part} :
    ∀ token ∈ (.lparen :: closedParts head).getLast?, token.goesOn '0' = false := by
  rcases List.eq_nil_or_concat head with rfl | ⟨parts, part, rfl⟩
  · simp [Token.goesOn]
  · simp [List.getLast?_cons, Token.goesOn, Token.isBlank]

/-- Where an expression is due, the last token opened a form or is white space, and a number after
it is a token of its own. -/
theorem Opens.goesOn_of_mem_getLast? (h : Opens limit frames taken room) :
    ∀ token ∈ taken.getLast?, token.goesOn '0' = false := by
  cases h with
  | nil => simp
  | quote => simp [Token.goesOn]
  | element =>
      rw [List.getLast?_append, List.getLast?_cons, Option.some_or, ← List.getLast?_cons]
      exact goesOn_of_mem_getLast?_cons_closedParts
  | tail => simp [List.getLast?_cons, Token.goesOn, Token.isBlank]

theorem Took.stopsAt_completionText {before : List Token} (h : reader.Took limit taken)
    (hbefore : AtMostBlank before) :
    ∀ token ∈ (before ++ taken).getLast?, token.StopsAt reader.completionText := by
  intro token htoken
  cases h with
  | expression _ hopens =>
      intro c hc
      obtain rfl : '0' = c := Option.some.inj hc
      rw [List.getLast?_append, Option.mem_def, Option.or_eq_some_iff] at htoken
      rcases htoken with htoken | ⟨-, htoken⟩
      · exact hopens.goesOn_of_mem_getLast? token htoken
      · rcases hbefore with rfl | rfl
        · simp at htoken
        · obtain rfl : Token.blank = token := by simpa using htoken
          rfl
  | separator => exact stopsAt_rparen token _
  | dot =>
      obtain rfl : Token.dot = token := by simpa [List.getLast?_cons] using htoken
      exact fun _ _ => rfl
  | close => exact stopsAt_rparen token _

theorem exists_took_of_run {lexemes rest : List Lexeme} {p : Position}
    (htook : reader.Took limit taken)
    (h : reader.run lexemes = (.error ⟨.unexpectedEnd, p⟩, rest)) :
    ∃ last : Reader, last.Took limit (taken ++ lexemes.map Lexeme.token) := by
  rcases exists_reaches_of_run h with ⟨last, hlast, -, -⟩ | ⟨before, lexeme, last, -, -, hstep⟩
  · exact ⟨last, hlast.took htook⟩
  · exact absurd hstep step_ne_unexpectedEnd

end Reader

/-- The scanner never asks for more than an unfinished string. -/
theorem Lexemes.scan_ne_unexpectedEnd (p q : Position) (source : List Char) :
    scan p source ≠ .error ⟨.unexpectedEnd, q⟩ := by
  intro h
  obtain ⟨tokens, front, rest, fault, -, -, hfault, he⟩ := scan_eq_error_iff.mp h
  cases hfault <;> cases he

theorem Lexemes.exists_took_of_parse {limit : Nat} {lexemes : Lexemes} {p : Position}
    (h : lexemes.parse limit = .error ⟨.unexpectedEnd, p⟩) :
    ∃ last : Reader, last.Took limit ((skipBlank lexemes.items).map Lexeme.token) := by
  unfold parse at h
  split at h
  · next e rest hread =>
      cases h
      exact Reader.exists_took_of_run (Reader.took_start limit lexemes.stop) hread
  · split at h <;> cases h

/-- Where the end is unexpected, some text completes the source. -/
theorem exists_parse_append {limit : Nat} {source : String} {p : Position}
    (h : parse limit source = .error ⟨.unexpectedEnd, p⟩) :
    ∃ more v, parse limit (source ++ more) = .ok v := by
  cases hscan : tokenize source with
  | error e =>
      rw [parse_of_tokenize_error hscan] at h
      cases h
      exact absurd hscan (Lexemes.scan_ne_unexpectedEnd _ _ _)
  | ok lexemes =>
      rw [parse_of_tokenize hscan] at h
      obtain ⟨last, hlast⟩ := Lexemes.exists_took_of_parse h
      obtain ⟨before, hbefore, hitems⟩ := skipBlank_append lexemes.items
      have hsplits := Lexemes.splits_of_scan hscan
      rw [hitems, List.map_append] at hsplits
      have hfront := SplitsBefore.of_splits hsplits (hlast.stopsAt_completionText hbefore)
      obtain ⟨v, hv⟩ := hlast.exists_derives
      refine ⟨String.ofList last.completionText, v, parse_eq_ok_iff.mpr ?_⟩
      refine ⟨_, _, [], ?_, hbefore, .inl rfl, hv⟩
      simpa using hfront.append (Reader.splits_completion last)

/-! ### Cutting off a source -/

theorem Cut.atMostBlank {left tokens : List Token} (h : Cut left tokens)
    (htokens : AtMostBlank tokens) : AtMostBlank left := by
  rcases htokens with rfl | rfl
  · cases h
    exact .inl rfl
  · cases h with
    | nil => exact .inl rfl
    | last halike => exact .inr (by rw [halike.blank_iff.mpr rfl])
    | cons hleft =>
        cases hleft
        exact .inr rfl

theorem Cut.skipBlank {lexemes : List Lexeme} {before more : List Token} {token : Token}
    (h : Cut (lexemes.map Lexeme.token) (before ++ token :: more)) (hbefore : AtMostBlank before)
    (hblank : token ≠ .blank) : Cut ((skipBlank lexemes).map Lexeme.token) (token :: more) := by
  rcases hbefore with rfl | rfl
  · unfold MiniLisp.skipBlank
    split
    · obtain ⟨halike, -⟩ := h.cons_inv
      exact absurd (halike.blank_iff.mp rfl) hblank
    · exact h
  · cases lexemes with
    | nil => exact .nil
    | cons lexeme lexemes =>
        obtain ⟨first, p⟩ := lexeme
        obtain ⟨halike, hrest⟩ := h.cons_inv
        obtain rfl : first = .blank := halike.blank_iff.mpr rfl
        exact hrest

namespace Reader

variable {reader : Reader} {tokens : List Token}

/-- `Accepts reader tokens` says that the reader, wherever the tokens stand in the source, completes
the expression and leaves at most white space. -/
def Accepts (reader : Reader) (tokens : List Token) : Prop :=
  ∀ lexemes : List Lexeme, lexemes.map Lexeme.token = tokens →
    ∃ v rest, reader.run lexemes = (.ok v, rest) ∧ AtMostBlank (rest.map Lexeme.token)

def Step.Accepts (tokens : List Token) : Step → Prop
  | .more reader => reader.Accepts tokens
  | .done _ => AtMostBlank tokens

theorem Accepts.step {token : Token} (h : reader.Accepts (token :: tokens)) (p : Position) :
    ∃ s, reader.step ⟨token, p⟩ = .ok s ∧ s.Accepts tokens := by
  obtain ⟨lexemes, rfl⟩ : ∃ lexemes : List Lexeme, lexemes.map Lexeme.token = tokens := by
    refine ⟨tokens.map fun token => ⟨token, p⟩, ?_⟩
    rw [List.map_map]
    exact List.map_id tokens
  obtain ⟨v, rest, hrun, hrest⟩ := h (⟨token, p⟩ :: lexemes) rfl
  cases hstep : reader.step ⟨token, p⟩ with
  | error e => simp [run, hstep] at hrun
  | ok s =>
      refine ⟨s, rfl, ?_⟩
      cases s with
      | done w =>
          rw [run_cons hstep] at hrun
          cases hrun
          exact hrest
      | more next =>
          intro placed hplaced
          have hmore := h (⟨token, p⟩ :: placed) (by rw [List.map_cons, hplaced])
          rwa [run_cons hstep] at hmore

theorem step_of_alike {token token' : Token} {p : Position} {s : Step} (h : token'.Alike token)
    (hstep : reader.step ⟨token, p⟩ = .ok s) : ∃ s', reader.step ⟨token', p⟩ = .ok s' := by
  obtain ⟨scope, frames, phase⟩ := reader
  cases h with
  | refl => exact ⟨s, hstep⟩
  | number m n =>
      cases phase with
      | expression => exact ⟨_, rfl⟩
      | _ => cases hstep
  | symbol name name' =>
      cases phase with
      | expression => exact ⟨_, rfl⟩
      | _ => cases hstep

/-- A reader that accepts tokens accepts what a cut leaves of them, or asks for more. -/
theorem run_of_cut {lexemes : List Lexeme} (hcut : Cut (lexemes.map Lexeme.token) tokens)
    (h : reader.Accepts tokens) :
    (∃ v rest, reader.run lexemes = (.ok v, rest) ∧ AtMostBlank (rest.map Lexeme.token)) ∨
      ∃ p, reader.run lexemes = (.error ⟨.unexpectedEnd, p⟩, []) := by
  induction lexemes generalizing reader tokens with
  | nil => exact .inr ⟨_, rfl⟩
  | cons lexeme lexemes ih =>
      rw [List.map_cons] at hcut
      generalize hleft : lexemes.map Lexeme.token = left at hcut ih
      cases hcut with
      | last halike =>
          -- The last token may be a front part of the one that stood there, so it only has to be
          -- taken alike.
          obtain rfl := List.map_eq_nil_iff.mp hleft
          obtain ⟨s, hstep, -⟩ := h.step lexeme.position
          obtain ⟨s', hstep'⟩ := step_of_alike halike hstep
          rw [run_cons hstep']
          cases s' with
          | done v => exact .inl ⟨v, [], rfl, .inl rfl⟩
          | more next => exact .inr ⟨_, rfl⟩
      | cons hrest =>
          obtain ⟨s, hstep, haccepts⟩ := h.step lexeme.position
          rw [run_cons hstep]
          cases s with
          | done v => exact .inl ⟨v, lexemes, rfl, hleft ▸ hrest.atMostBlank haccepts⟩
          | more next => exact ih hrest haccepts

theorem accepts_of_derives {limit : Nat} {used after : List Token} {v : Value}
    (h : Derives limit used v) (hafter : AtMostBlank after) (stop : Position) :
    (start (.top limit stop)).Accepts (used ++ after) := by
  intro lexemes hlexemes
  obtain ⟨useds, afters, rfl, rfl, rfl⟩ := List.map_eq_append_iff.mp hlexemes
  exact ⟨v, afters, readExpression_of_derives h, hafter⟩

end Reader

theorem Lexemes.parse_of_cut {limit : Nat} {lexemes : Lexemes} {before used after : List Token}
    {v : Value} (hcut : Cut (lexemes.items.map Lexeme.token) (before ++ used ++ after))
    (hbefore : AtMostBlank before) (hafter : AtMostBlank after) (h : Derives limit used v) :
    (∃ w, lexemes.parse limit = .ok w) ∨ ∃ p, lexemes.parse limit = .error ⟨.unexpectedEnd, p⟩ := by
  have haccepts := Reader.accepts_of_derives h hafter lexemes.stop
  obtain ⟨token, more, rfl, hblank⟩ := h.head_ne_blank
  rw [List.append_assoc, List.cons_append] at hcut
  rcases Reader.run_of_cut (hcut.skipBlank hbefore hblank) haccepts with
    ⟨w, rest, hrun, hrest⟩ | ⟨p, hrun⟩
  · left
    refine ⟨w, ?_⟩
    rw [parse, readExpression, hrun]
    simp only [skipBlank_eq_nil hrest]
  · right
    refine ⟨p, ?_⟩
    rw [parse, readExpression, hrun]

/-- What can be read and is cut off can still be read, or its end comes too early: between its
tokens or inside a string. -/
theorem parse_of_append {limit : Nat} {source more : String} {v : Value}
    (h : parse limit (source ++ more) = .ok v) :
    (∃ w, parse limit source = .ok w) ∨ (∃ p, parse limit source = .error ⟨.unexpectedEnd, p⟩) ∨
      ∃ p, parse limit source = .error ⟨.unterminatedString, p⟩ := by
  obtain ⟨before, used, after, hsplits, hbefore, hafter, hderives⟩ := parse_eq_ok_iff.mp h
  rw [String.toList_append] at hsplits
  rcases hsplits.of_append with ⟨left, hleft, hcut⟩ | hfault
  · obtain ⟨lexemes, hscan, rfl⟩ := Lexemes.scan_of_splits hleft .start
    have hparse : parse limit source = lexemes.parse limit := parse_of_tokenize hscan
    rw [hparse]
    rcases Lexemes.parse_of_cut hcut hbefore hafter hderives with hok | hend
    · exact .inl hok
    · exact .inr (.inl hend)
  · obtain ⟨p, hscan⟩ := hfault .start
    exact .inr (.inr ⟨p, parse_of_tokenize_error hscan⟩)

/-- An unexpected end means that the input is not complete. If it is reported, the source can be
completed within the same limit. If a source can be completed, then it is complete already, its end
is unexpected or it ends inside a string, and no other error is reported. -/
theorem parse_unexpectedEnd_completes (limit : Nat) (source : String) :
    (∀ p, parse limit source = .error ⟨.unexpectedEnd, p⟩ →
      ∃ more v, parse limit (source ++ more) = .ok v) ∧
    ∀ more v, parse limit (source ++ more) = .ok v →
      (∃ w, parse limit source = .ok w) ∨ (∃ p, parse limit source = .error ⟨.unexpectedEnd, p⟩) ∨
        ∃ p, parse limit source = .error ⟨.unterminatedString, p⟩ := by
  constructor
  · intro p hend
    exact exists_parse_append hend
  · intro more v hok
    exact parse_of_append hok

end MiniLisp
