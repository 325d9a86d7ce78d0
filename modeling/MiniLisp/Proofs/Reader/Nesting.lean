import MiniLisp.Proofs.Reader.Source

/-!
The nesting limit. It cuts off input that is nested too deep, at the first token that would open one
level too many, and it changes nothing else: a reader that is allowed more levels does the same up to
that token. How many levels are open at a token is told by the tokens alone.
-/

namespace MiniLisp

inductive Opener where
  | paren
  | quote
  deriving DecidableEq

/-- The levels that are open once an expression is over: quotes in front of it end with it. -/
def endExpression (levels : List Opener) : List Opener :=
  levels.dropWhile (· == .quote)

namespace Token

def opener? : Token → Option Opener
  | .lparen => some .paren
  | .quote => some .quote
  | _ => none

/-- The levels that are open after a token, innermost first, out of those open before it. A
parenthesis is open until it is closed, and a quote until the expression after it is over. -/
def levelsAfter (levels : List Opener) : Token → List Opener
  | .lparen => .paren :: levels
  | .quote => .quote :: levels
  | .rparen => endExpression levels.tail
  | .dot => levels
  | .blank => levels
  | .number _ => endExpression levels
  | .string _ => endExpression levels
  | .symbol _ => endExpression levels

end Token

def openLevels (tokens : List Token) : List Opener :=
  tokens.foldl Token.levelsAfter []

/-- The first token that opens a level where `limit` levels are open already, when `levels` are open
in front of all of them. -/
def firstTooDeep? (limit : Nat) (levels : List Opener) : List Lexeme → Option Lexeme
  | [] => none
  | lexeme :: rest =>
      if lexeme.token.opener?.isSome = true ∧ limit ≤ levels.length then some lexeme
      else firstTooDeep? limit (lexeme.token.levelsAfter levels) rest

/-! ### Levels and derivations -/

@[simp] theorem endExpression_paren (levels : List Opener) :
    endExpression (.paren :: levels) = .paren :: levels := rfl

@[simp] theorem endExpression_quote (levels : List Opener) :
    endExpression (.quote :: levels) = endExpression levels := rfl

theorem foldl_flatMap_eq_self {α β σ : Type} {f : α → List β} {step : σ → β → σ} {s : σ}
    {xs : List α} (h : ∀ x ∈ xs, (f x).foldl step s = s) : (xs.flatMap f).foldl step s = s := by
  induction xs with
  | nil => rfl
  | cons x xs ih =>
      obtain ⟨hx, hxs⟩ := List.forall_mem_cons.mp h
      rw [List.flatMap_cons, List.foldl_append, hx, ih hxs]

/-- Between the elements of a list its parenthesis is the innermost level, if each of them closes the
levels that it opens. -/
theorem foldl_levelsAfter_closedParts {head : List Part}
    (hhead : ∀ part ∈ head, ∀ levels,
      part.1.foldl Token.levelsAfter levels = endExpression levels) (levels : List Opener) :
    (closedParts head).foldl Token.levelsAfter (.paren :: levels) = .paren :: levels := by
  refine foldl_flatMap_eq_self fun part hpart => ?_
  simp [Token.levelsAfter, hhead part hpart]

theorem Derives.foldl_levelsAfter {limit : Nat} {used : List Token} {v : Value}
    (h : Derives limit used v) (levels : List Opener) :
    used.foldl Token.levelsAfter levels = endExpression levels := by
  induction h generalizing levels with
  | truth => rfl
  | falsity => rfl
  | atom => rfl
  | string => rfl
  | number => rfl
  | quote _ ih => exact ih (.quote :: levels)
  | empty => rfl
  | @list _ used v more _ _ ih ihmore =>
      -- Between the elements the parenthesis is the innermost level.
      have hmore : (openedParts more).foldl Token.levelsAfter (.paren :: levels) =
          .paren :: levels := by
        refine foldl_flatMap_eq_self fun part hpart => ?_
        simp [Token.levelsAfter, ihmore part hpart]
      simp [Token.levelsAfter, ih, hmore]
  | dotted _ _ ihhead ih =>
      simp [Token.levelsAfter, ih, foldl_levelsAfter_closedParts ihhead]

theorem foldl_levelsAfter_of_derives {limit : Nat} {head : List Part}
    (hhead : ∀ part ∈ head, Derives limit part.1 part.2) (levels : List Opener) :
    (closedParts head).foldl Token.levelsAfter (.paren :: levels) = .paren :: levels :=
  foldl_levelsAfter_closedParts (fun part hpart => (hhead part hpart).foldl_levelsAfter) levels

theorem openLevels_append (tokens more : List Token) :
    openLevels (tokens ++ more) = more.foldl Token.levelsAfter (openLevels tokens) :=
  List.foldl_append

theorem openLevels_concat (tokens : List Token) (token : Token) :
    openLevels (tokens ++ [token]) = token.levelsAfter (openLevels tokens) :=
  openLevels_append tokens [token]

def Frame.opener : Frame → Opener
  | .quote => .quote
  | .element _ => .paren
  | .tail _ => .paren

namespace Reader

variable {limit limit' room : Nat} {frames : List Frame} {taken : List Token} {reader : Reader}

/-- The levels open at a token are the forms that the reader has on its stack. -/
theorem Opens.openLevels_eq (h : Opens limit frames taken room) :
    openLevels taken = frames.map Frame.opener ∧ frames.length + room = limit := by
  induction h with
  | nil => exact ⟨rfl, Nat.zero_add limit⟩
  | quote _ ih =>
      obtain ⟨hlevels, hroom⟩ := ih
      refine ⟨?_, by simp only [List.length_cons]; omega⟩
      rw [openLevels_append, hlevels]
      rfl
  | element _ hhead ih =>
      obtain ⟨hlevels, hroom⟩ := ih
      refine ⟨?_, by simp only [List.length_cons]; omega⟩
      rw [openLevels_append, hlevels, List.foldl_cons]
      exact foldl_levelsAfter_of_derives hhead _
  | tail _ hhead ih =>
      obtain ⟨hlevels, hroom⟩ := ih
      refine ⟨?_, by simp only [List.length_cons]; omega⟩
      rw [openLevels_append, hlevels, List.foldl_cons, List.foldl_append]
      simp only [Token.levelsAfter, foldl_levelsAfter_of_derives hhead]
      rfl

theorem Took.exists_room (h : reader.Took limit taken) :
    ∃ room, HasRoom reader.scope limit room ∧ (openLevels taken).length + room = limit := by
  cases h with
  | @expression _ _ _ room hroom hopens =>
      obtain ⟨hlevels, hlength⟩ := hopens.openLevels_eq
      refine ⟨room, hroom, ?_⟩
      rwa [hlevels, List.length_map]
  | @separator _ _ _ _ room _ _ hroom hopens hhead hv =>
      obtain ⟨hlevels, hlength⟩ := hopens.openLevels_eq
      refine ⟨room, hroom, ?_⟩
      simp only [openLevels_append, hlevels, List.foldl_cons, List.foldl_append, Token.levelsAfter,
        foldl_levelsAfter_of_derives hhead, hv.foldl_levelsAfter, endExpression_paren,
        List.length_cons, List.length_map]
      omega
  | @dot _ _ _ room _ hroom hopens hhead =>
      obtain ⟨hlevels, hlength⟩ := hopens.openLevels_eq
      refine ⟨room, hroom, ?_⟩
      simp only [openLevels_append, hlevels, List.foldl_cons, List.foldl_append, Token.levelsAfter,
        foldl_levelsAfter_of_derives hhead, List.foldl_nil, List.length_cons, List.length_map]
      omega
  | @close _ _ _ _ room _ _ hroom hopens hhead hv =>
      obtain ⟨hlevels, hlength⟩ := hopens.openLevels_eq
      refine ⟨room, hroom, ?_⟩
      simp only [openLevels_append, hlevels, List.foldl_cons, List.foldl_append, Token.levelsAfter,
        foldl_levelsAfter_of_derives hhead, hv.foldl_levelsAfter, endExpression_paren,
        List.length_cons, List.length_map]
      omega

theorem Took.depth_eq (h : reader.Took limit taken) :
    reader.scope.limit = limit ∧ reader.scope.depth = (openLevels taken).length := by
  obtain ⟨room, ⟨hlimit, hdepth⟩, hlevels⟩ := h.exists_room
  exact ⟨hlimit, by omega⟩

/-! ### Two limits -/

def withLimit (limit : Nat) (reader : Reader) : Reader :=
  { reader with scope := { reader.scope with limit := limit } }

def Step.withLimit (limit : Nat) : Step → Step
  | .more reader => .more (reader.withLimit limit)
  | .done v => .done v

theorem deliver_withLimit (scope : Scope) (v : Value) (frames : List Frame) (limit : Nat) :
    deliver { scope with limit := limit } v frames = (deliver scope v frames).withLimit limit := by
  induction frames generalizing scope v with
  | nil => rfl
  | cons frame frames ih =>
      match frame with
      | .quote => exact ih scope.leave v.quoted
      | .element _ => rfl
      | .tail _ => rfl

theorem enter_withLimit (reader : Reader) (frame : Frame) (p : Position)
    (h : reader.scope.limit ≤ limit') :
    (reader.scope.limit ≤ reader.scope.depth ∧
      reader.enter frame p = .error ⟨.nestingTooDeep reader.scope.limit, p⟩) ∨
    (reader.withLimit limit').enter frame p = (reader.enter frame p).map (.withLimit limit') := by
  by_cases hdepth : reader.scope.depth < reader.scope.limit
  · have hdepth' : reader.scope.depth < limit' := by omega
    right
    simp [enter, Scope.enter, withLimit, hdepth, hdepth']
    rfl
  · left
    refine ⟨by omega, ?_⟩
    simp [enter, Scope.enter, hdepth]

/-- More levels make a difference only to a token that would open one level too many. -/
theorem stepExpression_withLimit (reader : Reader) (lexeme : Lexeme)
    (h : reader.scope.limit ≤ limit') :
    (lexeme.token.opener?.isSome = true ∧ reader.scope.limit ≤ reader.scope.depth ∧
      reader.stepExpression lexeme =
        .error ⟨.nestingTooDeep reader.scope.limit, lexeme.position⟩) ∨
    (reader.withLimit limit').stepExpression lexeme =
      (reader.stepExpression lexeme).map (.withLimit limit') := by
  obtain ⟨token, p⟩ := lexeme
  obtain ⟨scope, frames, phase⟩ := reader
  match token, frames with
  | .lparen, frames =>
      refine (enter_withLimit ⟨scope, frames, phase⟩ (.element []) p h).imp_left ?_
      rintro ⟨hdepth, henter⟩
      exact ⟨rfl, hdepth, henter⟩
  | .quote, frames =>
      refine (enter_withLimit ⟨scope, frames, phase⟩ .quote p h).imp_left ?_
      rintro ⟨hdepth, henter⟩
      exact ⟨rfl, hdepth, henter⟩
  | .symbol name, frames =>
      exact .inr (congrArg Except.ok (deliver_withLimit scope _ frames limit'))
  | .string contents, frames =>
      exact .inr (congrArg Except.ok (deliver_withLimit scope _ frames limit'))
  | .number n, frames =>
      exact .inr (congrArg Except.ok (deliver_withLimit scope _ frames limit'))
  | .rparen, .element [] :: frames =>
      exact .inr (congrArg Except.ok (deliver_withLimit scope.leave _ frames limit'))
  | .rparen, .element (_ :: _) :: _ => exact .inr rfl
  | .rparen, .quote :: _ => exact .inr rfl
  | .rparen, .tail _ :: _ => exact .inr rfl
  | .rparen, [] => exact .inr rfl
  | .dot, .element _ :: _ => exact .inr rfl
  | .dot, .quote :: _ => exact .inr rfl
  | .dot, .tail _ :: _ => exact .inr rfl
  | .dot, [] => exact .inr rfl
  | .blank, _ => exact .inr rfl

theorem step_withLimit (reader : Reader) (lexeme : Lexeme) (h : reader.scope.limit ≤ limit') :
    (lexeme.token.opener?.isSome = true ∧ reader.scope.limit ≤ reader.scope.depth ∧
      reader.step lexeme = .error ⟨.nestingTooDeep reader.scope.limit, lexeme.position⟩) ∨
    (reader.withLimit limit').step lexeme = (reader.step lexeme).map (.withLimit limit') := by
  obtain ⟨scope, frames, phase⟩ := reader
  cases phase with
  | expression => exact stepExpression_withLimit ⟨scope, frames, .expression⟩ lexeme h
  | separator read =>
      obtain ⟨token, p⟩ := lexeme
      right
      cases token with
      | rparen => exact congrArg Except.ok (deliver_withLimit scope.leave _ frames limit')
      | _ => rfl
  | dot read =>
      obtain ⟨token, p⟩ := lexeme
      right
      cases token <;> rfl
  | close read tail =>
      obtain ⟨token, p⟩ := lexeme
      right
      cases token with
      | rparen => exact congrArg Except.ok (deliver_withLimit scope.leave _ frames limit')
      | _ => rfl

theorem Took.length_lt_of_opener {token : Token} (h : reader.Took limit (taken ++ [token]))
    (hopens : token.opener?.isSome = true) : (openLevels taken).length < limit := by
  obtain ⟨room, -, hlevels⟩ := h.exists_room
  rw [openLevels_concat] at hlevels
  match token with
  | .lparen => simp only [Token.levelsAfter, List.length_cons] at hlevels; omega
  | .quote => simp only [Token.levelsAfter, List.length_cons] at hlevels; omega

/-- A reader that is allowed more levels does the same, unless there is a token that opens one level
too many. -/
theorem run_withLimit (h : limit ≤ limit') (htook : reader.Took limit taken)
    (lexemes : List Lexeme) :
    (∃ lexeme rest, firstTooDeep? limit (openLevels taken) lexemes = some lexeme ∧
      reader.run lexemes = (.error ⟨.nestingTooDeep limit, lexeme.position⟩, rest)) ∨
    (reader.withLimit limit').run lexemes = reader.run lexemes := by
  induction lexemes generalizing reader taken with
  | nil => exact .inr rfl
  | cons lexeme lexemes ih =>
      obtain ⟨hlimit, hdepth⟩ := htook.depth_eq
      rcases step_withLimit reader lexeme (hlimit ▸ h) with ⟨hopens, hfull, hstep⟩ | hstep
      · refine .inl ⟨lexeme, lexemes, ?_, ?_⟩
        · rw [firstTooDeep?, if_pos ⟨hopens, by omega⟩]
        · rw [run, hstep, hlimit]
      · cases hs : reader.step lexeme with
        | error e =>
            rw [hs] at hstep
            right
            rw [run, run, hs, hstep]
            rfl
        | ok s =>
            rw [hs] at hstep
            cases s with
            | done v =>
                right
                rw [run_cons hs, run_cons hstep]
                rfl
            | more next =>
                have hnext : next.Took limit (taken ++ [lexeme.token]) := took_step htook hs
                have hfree : ¬ (lexeme.token.opener?.isSome = true ∧
                    limit ≤ (openLevels taken).length) := by
                  rintro ⟨hopens, hfull⟩
                  have hlt := hnext.length_lt_of_opener hopens
                  omega
                rw [run_cons hs, run_cons hstep, firstTooDeep?, if_neg hfree, ← openLevels_concat]
                exact ih hnext

end Reader

theorem firstTooDeep?_skipBlank (limit : Nat) (levels : List Opener) (lexemes : List Lexeme) :
    firstTooDeep? limit levels (skipBlank lexemes) = firstTooDeep? limit levels lexemes := by
  unfold skipBlank
  split
  · simp [firstTooDeep?, Token.opener?, Token.levelsAfter]
  · rfl

theorem Lexemes.parse_eq_of_limit_le {limit limit' : Nat} (h : limit ≤ limit')
    (lexemes : Lexemes) :
    (∃ lexeme, firstTooDeep? limit [] lexemes.items = some lexeme ∧
      lexemes.parse limit = .error ⟨.nestingTooDeep limit, lexeme.position⟩) ∨
    lexemes.parse limit' = lexemes.parse limit := by
  have hstart := Reader.took_start limit lexemes.stop
  rcases Reader.run_withLimit h hstart (skipBlank lexemes.items) with
    ⟨lexeme, rest, hfirst, hrun⟩ | hrun
  · rw [firstTooDeep?_skipBlank] at hfirst
    refine .inl ⟨lexeme, hfirst, ?_⟩
    rw [parse, readExpression, hrun]
  · right
    change (Reader.start (.top limit' lexemes.stop)).run _ = _ at hrun
    rw [parse, parse, readExpression, readExpression, hrun]

theorem parse_eq_of_limit_le {limit limit' : Nat} (h : limit ≤ limit') (source : String) :
    (∃ lexemes lexeme, tokenize source = .ok lexemes ∧
      firstTooDeep? limit [] lexemes.items = some lexeme ∧
      parse limit source = .error ⟨.nestingTooDeep limit, lexeme.position⟩) ∨
    parse limit' source = parse limit source := by
  cases hscan : tokenize source with
  | error e =>
      right
      rw [parse_of_tokenize_error hscan, parse_of_tokenize_error hscan]
  | ok lexemes =>
      rcases lexemes.parse_eq_of_limit_le h with ⟨lexeme, hfirst, hparse⟩ | hparse
      · refine .inl ⟨lexemes, lexeme, rfl, hfirst, ?_⟩
        rw [parse_of_tokenize hscan]
        exact hparse
      · right
        rw [parse_of_tokenize hscan, parse_of_tokenize hscan]
        exact hparse

/-- The limit only cuts off what is nested too deep. An outcome other than that complaint is the
outcome under every larger limit. A value that a larger limit lets through is read if it is no
deeper than the limit, and otherwise the complaint is about the first token that opens a level
where as many are open as the limit allows. -/
theorem parse_limit_cuts_off (source : String) {limit limit' : Nat} (h : limit ≤ limit') :
    ((∀ n p, parse limit source ≠ .error ⟨.nestingTooDeep n, p⟩) →
      parse limit' source = parse limit source) ∧
    ∀ v, parse limit' source = .ok v →
      (v.depth ≤ limit → parse limit source = .ok v) ∧
      (limit < v.depth → ∃ lexemes lexeme, tokenize source = .ok lexemes ∧
        firstTooDeep? limit [] lexemes.items = some lexeme ∧
        parse limit source = .error ⟨.nestingTooDeep limit, lexeme.position⟩) := by
  have hcut := parse_eq_of_limit_le h source
  refine ⟨?_, fun v hv => ⟨?_, ?_⟩⟩
  · intro hother
    rcases hcut with ⟨lexemes, lexeme, -, -, hparse⟩ | hsame
    · exact absurd hparse (hother limit lexeme.position)
    · exact hsame
  · intro hdepth
    obtain ⟨before, used, after, hsplits, hbefore, hafter, hderives⟩ := parse_eq_ok_iff.mp hv
    exact parse_eq_ok_iff.mpr
      ⟨before, used, after, hsplits, hbefore, hafter, hderives.of_depth_le hdepth⟩
  · intro hdepth
    rcases hcut with hcut | hsame
    · exact hcut
    -- The same outcome would be a value deeper than its limit.
    · obtain ⟨-, used, -, -, -, -, hderives⟩ := parse_eq_ok_iff.mp (hsame ▸ hv)
      have hle := hderives.depth_le
      omega

/-- The empty list before it is closed again, so the quote is the first to open a third level. -/
theorem parse_limit_cuts_off_after_sibling :
    2 ≤ 3 ∧
    parse 3 "(() (b 'c))" = .ok (.list [.list [], .list [.atom "b", (Value.atom "c").quoted]]) ∧
    ∃ lexemes lexeme, tokenize "(() (b 'c))" = .ok lexemes ∧
      firstTooDeep? 2 [] lexemes.items = some lexeme ∧
      parse 2 "(() (b 'c))" = .error ⟨.nestingTooDeep 2, lexeme.position⟩ := by
  have hle : 2 ≤ 3 := by decide
  have hparse : parse 3 "(() (b 'c))" =
      .ok (.list [.list [], .list [.atom "b", (Value.atom "c").quoted]]) := by decide +kernel
  have hdepth : 2 < (Value.list [.list [], .list [.atom "b", (Value.atom "c").quoted]]).depth := by
    decide
  exact ⟨hle, hparse, ((parse_limit_cuts_off "(() (b 'c))" hle).2 _ hparse).2 hdepth⟩

end MiniLisp
