import MiniLisp.Proofs.Reader.Composition

/-!
Layout does not matter. The reader copies the places of tokens into its errors and makes no other
use of them, and a run of white space is one token however long it is. So the outcome for a text,
places aside, is told by its tokens alone: one run of white space between two texts is as good as
another, and white space around a text has no part in the value that is read from it.
-/

namespace MiniLisp

/-! ### Moving tokens to other places -/

def ParseError.moved (move : Position → Position) (e : ParseError) : ParseError :=
  ⟨e.cause, move e.position⟩

def Lexeme.moved (move : Position → Position) (lexeme : Lexeme) : Lexeme :=
  ⟨lexeme.token, move lexeme.position⟩

def Lexemes.moved (move : Position → Position) (lexemes : Lexemes) : Lexemes :=
  ⟨lexemes.items.map (Lexeme.moved move), move lexemes.stop⟩

def Scope.moved (move : Position → Position) (scope : Scope) : Scope :=
  { scope with stop := move scope.stop }

namespace Reader

variable (move : Position → Position)

def moved (reader : Reader) : Reader :=
  { reader with scope := reader.scope.moved move }

def Step.moved : Step → Step
  | .more reader => .more (reader.moved move)
  | .done v => .done v

theorem deliver_moved (scope : Scope) (v : Value) (frames : List Frame) :
    deliver (scope.moved move) v frames = (deliver scope v frames).moved move := by
  induction frames generalizing scope v with
  | nil => rfl
  | cons frame frames ih =>
      cases frame with
      | quote => exact ih scope.leave v.quoted
      | element read => rfl
      | tail read => rfl

theorem enter_moved (reader : Reader) (frame : Frame) (p : Position) :
    (reader.moved move).enter frame (move p) =
      ((reader.enter frame p).map (Step.moved move)).mapError (ParseError.moved move) := by
  by_cases hdepth : reader.scope.depth < reader.scope.limit
  · simp [enter, Scope.enter, moved, Scope.moved, hdepth]
    rfl
  · simp [enter, Scope.enter, moved, Scope.moved, hdepth]
    rfl

theorem stepExpression_moved (reader : Reader) (lexeme : Lexeme) :
    (reader.moved move).stepExpression (lexeme.moved move) =
      ((reader.stepExpression lexeme).map (Step.moved move)).mapError (ParseError.moved move) := by
  obtain ⟨token, p⟩ := lexeme
  obtain ⟨scope, frames, phase⟩ := reader
  match token, frames with
  | .lparen, frames => exact enter_moved move ⟨scope, frames, phase⟩ (.element []) p
  | .quote, frames => exact enter_moved move ⟨scope, frames, phase⟩ .quote p
  | .symbol name, frames => exact congrArg Except.ok (deliver_moved move scope _ frames)
  | .string contents, frames => exact congrArg Except.ok (deliver_moved move scope _ frames)
  | .number n, frames => exact congrArg Except.ok (deliver_moved move scope _ frames)
  | .rparen, .element [] :: frames =>
      exact congrArg Except.ok (deliver_moved move scope.leave _ frames)
  | .rparen, .element (_ :: _) :: _ => rfl
  | .rparen, .quote :: _ => rfl
  | .rparen, .tail _ :: _ => rfl
  | .rparen, [] => rfl
  | .dot, .element _ :: _ => rfl
  | .dot, .quote :: _ => rfl
  | .dot, .tail _ :: _ => rfl
  | .dot, [] => rfl
  | .blank, _ => rfl

theorem step_moved (reader : Reader) (lexeme : Lexeme) :
    (reader.moved move).step (lexeme.moved move) =
      ((reader.step lexeme).map (Step.moved move)).mapError (ParseError.moved move) := by
  obtain ⟨scope, frames, phase⟩ := reader
  cases phase with
  | expression => exact stepExpression_moved move ⟨scope, frames, .expression⟩ lexeme
  | separator read =>
      obtain ⟨token, p⟩ := lexeme
      cases token with
      | rparen => exact congrArg Except.ok (deliver_moved move scope.leave _ frames)
      | _ => rfl
  | dot read =>
      obtain ⟨token, p⟩ := lexeme
      cases token <;> rfl
  | close read tail =>
      obtain ⟨token, p⟩ := lexeme
      cases token with
      | rparen => exact congrArg Except.ok (deliver_moved move scope.leave _ frames)
      | _ => rfl

/-- A run over tokens at other places differs in the places that it reports only. -/
theorem run_moved (reader : Reader) (lexemes : List Lexeme) :
    (reader.moved move).run (lexemes.map (Lexeme.moved move)) =
      ((reader.run lexemes).1.mapError (ParseError.moved move),
        (reader.run lexemes).2.map (Lexeme.moved move)) := by
  induction lexemes generalizing reader with
  | nil => rfl
  | cons lexeme lexemes ih =>
      have hmoved := step_moved move reader lexeme
      cases hstep : reader.step lexeme with
      | error e =>
          rw [hstep] at hmoved
          rw [List.map_cons, run, run, hmoved, hstep]
          rfl
      | ok s =>
          rw [hstep] at hmoved
          rw [List.map_cons, run_cons hmoved, run_cons hstep]
          cases s with
          | done v => rfl
          | more next => exact ih next

end Reader

theorem readExpression_moved (move : Position → Position) (scope : Scope) (lexemes : List Lexeme) :
    readExpression (scope.moved move) (lexemes.map (Lexeme.moved move)) =
      ((readExpression scope lexemes).1.mapError (ParseError.moved move),
        (readExpression scope lexemes).2.map (Lexeme.moved move)) :=
  Reader.run_moved move (.start scope) lexemes

theorem skipBlank_map_moved (move : Position → Position) (lexemes : List Lexeme) :
    skipBlank (lexemes.map (Lexeme.moved move)) = (skipBlank lexemes).map (Lexeme.moved move) := by
  cases lexemes with
  | nil => rfl
  | cons lexeme rest =>
      obtain ⟨token, p⟩ := lexeme
      cases token <;> rfl

theorem Lexemes.parse_moved (move : Position → Position) (limit : Nat) (lexemes : Lexemes) :
    (lexemes.moved move).parse limit = (lexemes.parse limit).mapError (ParseError.moved move) := by
  have hread := readExpression_moved move (.top limit lexemes.stop) (skipBlank lexemes.items)
  rw [← skipBlank_map_moved] at hread
  change readExpression (.top limit (lexemes.moved move).stop)
    (skipBlank (lexemes.moved move).items) = _ at hread
  rw [parse, parse, hread]
  obtain ⟨outcome, rest⟩ := readExpression (.top limit lexemes.stop) (skipBlank lexemes.items)
  cases outcome with
  | error e => rfl
  | ok v =>
      simp only [Except.mapError, skipBlank_map_moved]
      cases skipBlank rest <;> rfl

theorem Lexemes.mapError_cause_parse {lexemes lexemes' : Lexemes}
    (h : lexemes.items.map Lexeme.token = lexemes'.items.map Lexeme.token) (limit : Nat) :
    (lexemes.parse limit).mapError ParseError.cause =
      (lexemes'.parse limit).mapError ParseError.cause := by
  -- Gathered in one place, the tokens are the same.
  have hcause : ∀ l : Lexemes, ((l.moved fun _ => .start).parse limit).mapError ParseError.cause =
      (l.parse limit).mapError ParseError.cause := by
    intro l
    rw [l.parse_moved]
    cases l.parse limit <;> rfl
  have hgathered : ∀ l : Lexemes, l.moved (fun _ => .start) =
      ⟨(l.items.map Lexeme.token).map fun token => ⟨token, .start⟩, .start⟩ := by
    intro l
    rw [List.map_map]
    rfl
  rw [← hcause lexemes, ← hcause lexemes', hgathered, hgathered, h]

/-! ### Tokens without their places -/

def Lexemes.unplaced (outcome : Except ParseError Lexemes) :
    Except ParseError.Cause (List Token) :=
  (outcome.map fun lexemes => lexemes.items.map Lexeme.token).mapError ParseError.cause

/-- The tokens of a text without their places, or the cause for which it has none. -/
def tokensOf (source : List Char) : Except ParseError.Cause (List Token) :=
  Lexemes.unplaced (Lexemes.scan .start source)

namespace Lexemes

theorem unplaced_scan (p : Position) (source : List Char) :
    unplaced (scan p source) = tokensOf source := by
  cases hscan : scan p source with
  | error e =>
      obtain ⟨tokens, front, rest, fault, hsource, hfront, hfault, rfl⟩ :=
        scan_eq_error_iff.mp hscan
      have hstart : scan .start source = .error ⟨fault.cause, _⟩ :=
        scan_eq_error_iff.mpr ⟨tokens, front, rest, fault, hsource, hfront, hfault, rfl⟩
      rw [tokensOf, hstart]
      rfl
  | ok lexemes =>
      obtain ⟨lexemes', hstart, htokens⟩ := scan_of_splits (splits_of_scan hscan) .start
      rw [tokensOf, hstart]
      exact congrArg Except.ok htokens.symm

end Lexemes

theorem Token.Spelled.tokensOf_append {token : Token} {lexeme rest : List Char}
    (h : token.Spelled lexeme) (hstop : token.StopsAt rest) :
    tokensOf (lexeme ++ rest) = (tokensOf rest).map (token :: ·) := by
  obtain ⟨c, more, rfl, hscan⟩ := scan_of_spelled h hstop
  rw [List.cons_append, tokensOf, Lexemes.scan_cons hscan,
    ← Lexemes.unplaced_scan (Position.start.after (c :: more)) rest]
  cases Lexemes.scan (Position.start.after (c :: more)) rest <;> rfl

/-- A text in front that ends with a whole token adds its tokens, whatever comes of the rest. -/
theorem SplitsBefore.tokensOf_append {rest front : List Char} {tokens : List Token}
    (h : SplitsBefore rest tokens front) :
    tokensOf (front ++ rest) = (tokensOf rest).map (tokens ++ ·) := by
  induction h with
  | nil =>
      rw [List.nil_append]
      cases tokensOf rest <;> rfl
  | cons hspelled hstop _ ih =>
      rw [List.append_assoc, hspelled.tokensOf_append hstop, ih]
      cases tokensOf rest <;> rfl

/-- Texts with the same tokens have the same outcome, places aside, and so have texts that fall
short of tokens for the same cause. -/
theorem mapError_cause_parse {source source' : String}
    (h : tokensOf source.toList = tokensOf source'.toList) (limit : Nat) :
    (parse limit source).mapError ParseError.cause =
      (parse limit source').mapError ParseError.cause := by
  change Lexemes.unplaced (tokenize source) = Lexemes.unplaced (tokenize source') at h
  cases hscan : tokenize source with
  | error e =>
      rw [hscan] at h
      cases hscan' : tokenize source' with
      | error e' =>
          rw [hscan'] at h
          rw [parse_of_tokenize_error hscan, parse_of_tokenize_error hscan']
          exact congrArg Except.error (Except.error.inj h)
      | ok lexemes' =>
          rw [hscan'] at h
          cases h
  | ok lexemes =>
      rw [hscan] at h
      cases hscan' : tokenize source' with
      | error e' =>
          rw [hscan'] at h
          cases h
      | ok lexemes' =>
          rw [hscan'] at h
          rw [parse_of_tokenize hscan, parse_of_tokenize hscan']
          exact Lexemes.mapError_cause_parse (Except.ok.inj h) limit

/-! ### White space between texts -/

/-- A run of white space behind a text is one token more, if neither that text nor the one behind
the run has white space next to it. -/
theorem Separator.splitsBefore {front rest : List Char} {tokens : List Token} (gap : Separator)
    (h : Splits tokens front) (hfront : ∀ c ∈ front.getLast?, Token.isBlank c = false)
    (hrest : ∀ c ∈ rest.head?, Token.isBlank c = false) :
    SplitsBefore rest (tokens ++ [.blank]) (front ++ gap.text.toList) := by
  have hlast : ∀ token ∈ tokens.getLast?, token.StopsAt gap.text.toList := by
    intro token htoken
    obtain ⟨before, rfl⟩ := List.getLast?_eq_some_iff.mp htoken
    refine Token.stopsAt_of_delimiter ?_ fun c hc => ?_
    · rintro rfl
      obtain ⟨c, hc, hblank⟩ := exists_blank_of_last h
      rw [hfront c hc] at hblank
      cases hblank
    · exact Token.mem_delimiters_of_isBlank (gap.blank c (List.mem_of_head? hc))
  have hgap : Splits [.blank] gap.text.toList := by
    simpa using gap.splits_append .nil (by simp)
  refine .of_splits ((SplitsBefore.of_splits h hlast).append hgap) ?_
  intro token htoken
  obtain rfl : token = .blank := by simpa using htoken.symm
  exact hrest

/-! ### White space around a text -/

variable {limit : Nat} {v : Value}

theorem forall_isBlank_of_splits {tokens : List Token} {cs : List Char} (h : Splits tokens cs)
    (htokens : AtMostBlank tokens) : ∀ c ∈ cs, Token.isBlank c = true := by
  rcases htokens with rfl | rfl
  · cases h
    simp
  · obtain ⟨run, rest, rfl, hspelled, -, hrest⟩ := h.cons_inv
    cases hrest
    simpa using hspelled.blank_inv.2

theorem exists_splits_blank_append {lead rest : List Char} {more : List Token}
    (hlead : ∀ c ∈ lead, Token.isBlank c = true) (hmore : Splits more rest)
    (hrest : ∀ c ∈ rest.head?, Token.isBlank c = false) :
    ∃ before, AtMostBlank before ∧ Splits (before ++ more) (lead ++ rest) := by
  by_cases hne : lead = []
  · subst hne
    exact ⟨[], .inl rfl, hmore⟩
  · exact ⟨[.blank], .inr rfl, .cons (.blank hne hlead) hrest hmore⟩

theorem parse_eq_ok_iff_spells {source : String} :
    parse limit source = .ok v ↔ ∃ lead core trail, source.toList = lead ++ (core ++ trail) ∧
      (∀ c ∈ lead, Token.isBlank c = true) ∧ (∀ c ∈ trail, Token.isBlank c = true) ∧
      Spells limit core v := by
  rw [parse_eq_ok_iff]
  constructor
  · rintro ⟨before, used, after, hsplits, hbefore, hafter, hderives⟩
    rw [List.append_assoc] at hsplits
    obtain ⟨lead, rest, hsource, hlead, hrest⟩ := SplitsBefore.exists_of_append hsplits
    obtain ⟨core, trail, rfl, hcore, htrail⟩ := SplitsBefore.exists_of_append hrest
    exact ⟨lead, core, trail, hsource, forall_isBlank_of_splits hlead.splits hbefore,
      forall_isBlank_of_splits htrail hafter, used, hcore.splits, hderives⟩
  · rintro ⟨lead, core, trail, hsource, hlead, htrail, hspells⟩
    obtain ⟨used, hused, hderives⟩ := hspells
    obtain ⟨after, hafter, hend⟩ := exists_splits_blank_append htrail .nil (by simp)
    rw [List.append_nil, List.append_nil] at hend
    have hcore := hderives.splits_append hused hend fun c hc =>
      .inl (htrail c (List.mem_of_head? hc))
    obtain ⟨before, hbefore, hall⟩ :=
      exists_splits_blank_append hlead hcore (Spells.head?_append ⟨used, hused, hderives⟩ trail)
    rw [← hsource, ← List.append_assoc] at hall
    exact ⟨before, used, after, hall, hbefore, hafter, hderives⟩

theorem exists_of_blank_append_eq {lead lead' cs rest : List Char}
    (hlead : ∀ c ∈ lead, Token.isBlank c = true)
    (hrest : ∀ c ∈ rest.head?, Token.isBlank c = false) (h : lead ++ cs = lead' ++ rest) :
    ∃ more, lead' = lead ++ more ∧ cs = more ++ rest := by
  rcases List.append_eq_append_iff.mp h with ⟨more, hmore⟩ | ⟨more, rfl, hcs⟩
  · exact ⟨more, hmore⟩
  · cases more with
    | nil => exact ⟨[], by simp, by simpa using hcs.symm⟩
    | cons c more =>
        have hblank := hlead c (by simp)
        rw [hrest c (by simp [hcs])] at hblank
        cases hblank

theorem exists_of_append_blank_eq {trail trail' cs front : List Char}
    (htrail : ∀ c ∈ trail, Token.isBlank c = true)
    (hfront : ∀ c ∈ front.getLast?, Token.isBlank c = false) (h : cs ++ trail = front ++ trail') :
    ∃ more, trail' = more ++ trail ∧ cs = front ++ more := by
  rcases List.append_eq_append_iff.mp h with ⟨more, rfl, hmore⟩ | ⟨more, hcs, hmore⟩
  · rcases List.eq_nil_or_concat more with rfl | ⟨init, c, rfl⟩
    · exact ⟨[], by simpa using hmore.symm, by simp⟩
    · have hblank := htrail c (by simp [hmore])
      rw [hfront c (by simp)] at hblank
      cases hblank
  · exact ⟨more, hmore, hcs⟩

theorem parse_blank_append_iff {lead source trail : String}
    (hlead : ∀ c ∈ lead.toList, Token.isBlank c = true)
    (htrail : ∀ c ∈ trail.toList, Token.isBlank c = true) :
    parse limit (lead ++ source ++ trail) = .ok v ↔ parse limit source = .ok v := by
  rw [parse_eq_ok_iff_spells, parse_eq_ok_iff_spells]
  simp only [String.toList_append, List.append_assoc]
  constructor
  · rintro ⟨lead', core, trail', hsource, hlead', htrail', hspells⟩
    have hlast : ∀ c ∈ (core : List Char).getLast?, Token.isBlank c = false := hspells.trimmed.2
    obtain ⟨left, rfl, hrest⟩ :=
      exists_of_blank_append_eq hlead (hspells.head?_append trail') hsource
    rw [← List.append_assoc left] at hrest
    rw [← List.getLast?_append_of_ne_nil left hspells.ne_nil] at hlast
    obtain ⟨right, rfl, hcore⟩ := exists_of_append_blank_eq htrail hlast hrest
    refine ⟨left, core, right, by simpa using hcore, fun c hc => ?_, fun c hc => ?_, hspells⟩
    · exact hlead' c (List.mem_append_right _ hc)
    · exact htrail' c (List.mem_append_left _ hc)
  · rintro ⟨lead', core, trail', hsource, hlead', htrail', hspells⟩
    refine ⟨lead.toList ++ lead', core, trail' ++ trail.toList, by simp [hsource], ?_, ?_, hspells⟩
    · exact List.forall_mem_append.mpr ⟨hlead, hlead'⟩
    · exact List.forall_mem_append.mpr ⟨htrail', htrail⟩

/-- One run of white space between two texts is as good as another: the outcome is the same value,
or an error that differs at most in its place. And white space around a text, or none, makes no
difference to whether and as what value it is read. -/
theorem parse_layout (limit : Nat) :
    (∀ (a b : String) (gap gap' : Separator),
      (∃ lexemes, tokenize a = .ok lexemes) →
      (∀ c ∈ a.toList.getLast?, Token.isBlank c = false) →
      (∀ c ∈ b.toList.head?, Token.isBlank c = false) →
        (parse limit (a ++ gap.text ++ b)).mapError ParseError.cause =
          (parse limit (a ++ gap'.text ++ b)).mapError ParseError.cause) ∧
    ∀ (lead source trail : String) (v : Value),
      (∀ c ∈ lead.toList, Token.isBlank c = true) → (∀ c ∈ trail.toList, Token.isBlank c = true) →
        (parse limit (lead ++ source ++ trail) = .ok v ↔ parse limit source = .ok v) := by
  refine ⟨?_, ?_⟩
  · rintro a b gap gap' ⟨lexemes, hscan⟩ ha hb
    have hsplits := Lexemes.splits_of_scan hscan
    refine mapError_cause_parse ?_ limit
    simp only [String.toList_append]
    rw [(gap.splitsBefore hsplits ha hb).tokensOf_append,
      (gap'.splitsBefore hsplits ha hb).tokensOf_append]
  · intro lead source trail v hlead htrail
    exact parse_blank_append_iff hlead htrail

/-- The complaint is about the same dot, whatever is between it and the other. -/
theorem parse_layout_two_dots :
    (∃ lexemes, tokenize "(1 ." = .ok lexemes) ∧
    (parse 9 "(1 .\r\n\n. 2)").mapError ParseError.cause =
      (parse 9 "(1 . . 2)").mapError ParseError.cause ∧
    parse 9 "\n (1 . 2)\t" = .ok (.dotted [.number 1] (.number 2)) := by
  have hscan : ∃ lexemes, tokenize "(1 ." = .ok lexemes :=
    ⟨⟨[⟨.lparen, ⟨1, 1⟩⟩, ⟨.number 1, ⟨1, 2⟩⟩, ⟨.blank, ⟨1, 3⟩⟩, ⟨.dot, ⟨1, 4⟩⟩], ⟨1, 5⟩⟩,
      by decide +kernel⟩
  have hparse : parse 9 "(1 . 2)" = .ok (.dotted [.number 1] (.number 2)) := by decide +kernel
  let lines : Separator := ⟨"\r\n\n", by simp, by simp [Token.isBlank]⟩
  let space : Separator := ⟨" ", by simp, by simp [Token.isBlank]⟩
  obtain ⟨hgap, haround⟩ := parse_layout 9
  refine ⟨hscan, ?_, ?_⟩
  · exact hgap "(1 ." ". 2)" lines space hscan (by simp [Token.isBlank]) (by simp [Token.isBlank])
  · refine (haround "\n " "(1 . 2)" "\t" _ ?_ ?_).mpr hparse
    · simp [Token.isBlank]
    · simp [Token.isBlank]

end MiniLisp
