import MiniLisp.Proofs.Token.Spelling

/-!
Where a text cannot be split into tokens. The scanner stops at the first place where no token can
be read, with everything in front of it split along the lexical grammar, and what it reports there
is what stands there: a character that begins no token, an unknown escape in a string literal, or a
literal without an end.
-/

namespace MiniLisp

namespace Token

/-- `Faulty rest fault` says that `fault` keeps a token from being read at the front of `rest`. -/
inductive Faulty : List Char → Fault → Prop where
  | character {c : Char} (rest : List Char) :
      (∀ token more, ¬ Spelled token (c :: more)) →
        Faulty (c :: rest) ⟨.invalidCharacter (String.singleton c), []⟩
  /-- An unknown escape, with the text of its literal as far as the backslash. -/
  | escape {contents body : List Char} {e : Char} (rest : List Char) :
      Text.Escaped contents body → (∀ c, (e, c) ∉ Text.escapes) →
        Faulty ('"' :: (body ++ '\\' :: e :: rest)) ⟨.invalidEscape e, '"' :: body⟩
  | unclosed {contents body : List Char} :
      Text.Escaped contents body → Faulty ('"' :: body) ⟨.unterminatedString, []⟩
  | cutEscape {contents body : List Char} :
      Text.Escaped contents body → Faulty ('"' :: (body ++ ['\\'])) ⟨.unterminatedString, []⟩

theorem opening_eq_invalid_iff {c : Char} :
    opening c = .invalid ↔ ∀ token more, ¬ Spelled token (c :: more) := by
  constructor
  · intro h token more hspelled
    obtain ⟨c', more', hc, hscan⟩ := @scan_of_spelled token _ [] hspelled (by simp [StopsAt])
    obtain ⟨rfl, rfl⟩ := List.cons.inj hc
    simp [scan, h] at hscan
  · intro h
    cases hopening : opening c with
    | invalid => rfl
    | single token => exact absurd (opening_eq_single hopening).1 (h token [])
    | string =>
        obtain rfl := eq_of_opening_eq_string hopening
        exact absurd (.string .nil) (h (.string (String.ofList [])) ['"'])
    | number =>
        have hdigit := isDigit_of_opening_eq_number hopening
        exact absurd (.number (by simp) (by simpa using hdigit)) (h _ [])
    | blank =>
        have hblank := isBlank_of_opening_eq_blank hopening
        exact absurd (.blank (by simp) (by simpa using hblank)) (h .blank [])
    | symbol =>
        have hsymbol := isSymbolStart_of_opening_eq_symbol hopening
        exact absurd (.symbol (by simp [Text.isSymbol, hsymbol])) (h _ [])

theorem faulty_of_scanString {rest : List Char} {fault : Fault}
    (h : scanString rest = .error fault) : Faulty ('"' :: rest) fault := by
  obtain ⟨contents, body, rest, rfl, hbody, hobstacle⟩ := Text.Literal.exists_escaped_obstacle rest
  cases hobstacle with
  | quote rest =>
      rw [scanString, Text.Literal.read_of_escaped hbody] at h
      cases h
  | unknown rest he =>
      rw [scanString, Text.Literal.read_unknown_of_escaped hbody he] at h
      cases h
      exact .escape rest hbody he
  | backslash =>
      rw [scanString, (Text.Literal.read_unclosed_of_escaped hbody).2] at h
      cases h
      exact .cutEscape hbody
  | nil =>
      rw [List.append_nil, scanString, (Text.Literal.read_unclosed_of_escaped hbody).1] at h
      cases h
      rw [List.append_nil]
      exact .unclosed hbody

/-- The scanner reports at the front of a text what keeps a token from being read there. -/
theorem scan_eq_error_iff {c : Char} {rest : List Char} {fault : Fault} :
    scan c rest = .error fault ↔ Faulty (c :: rest) fault := by
  constructor
  · intro h
    unfold scan at h
    split at h
    case h_1 => cases h
    case h_2 hstring =>
        obtain rfl := eq_of_opening_eq_string hstring
        exact faulty_of_scanString h
    case h_3 hnumber =>
        rw [scanNumber_of_isDigit (isDigit_of_opening_eq_number hnumber)] at h
        cases h
    case h_4 => cases h
    case h_5 => cases h
    case h_6 hinvalid =>
        cases h
        exact .character rest (opening_eq_invalid_iff.mp hinvalid)
  · intro h
    have hquote : opening '"' = .string := rfl
    cases h with
    | character _ hc => simp [scan, opening_eq_invalid_iff.mpr hc]
    | escape rest hbody he =>
        simp [scan, hquote, scanString, Text.Literal.read_unknown_of_escaped hbody he]
    | unclosed hbody =>
        simp [scan, hquote, scanString, (Text.Literal.read_unclosed_of_escaped hbody).1]
    | cutEscape hbody =>
        simp [scan, hquote, scanString, (Text.Literal.read_unclosed_of_escaped hbody).2]

end Token

/-- `SplitsBefore rest tokens front` says that the characters `front` are the texts of the tokens in
order and that none of them is cut short when `rest` follows. -/
inductive SplitsBefore (rest : List Char) : List Token → List Char → Prop where
  | nil : SplitsBefore rest [] []
  | cons {token : Token} {tokens : List Token} {lexeme front : List Char} :
      token.Spelled lexeme → token.StopsAt (front ++ rest) → SplitsBefore rest tokens front →
        SplitsBefore rest (token :: tokens) (lexeme ++ front)

namespace Token

theorem stopsAt_nil (token : Token) : token.StopsAt [] := by
  simp [StopsAt]

theorem StopsAt.of_append {token : Token} {front rest : List Char}
    (h : token.StopsAt (front ++ rest)) : token.StopsAt front := by
  cases front with
  | nil => exact stopsAt_nil token
  | cons d front => exact h

end Token

namespace SplitsBefore

variable {rest : List Char} {tokens more : List Token} {front : List Char}

theorem append (h : SplitsBefore rest tokens front) (hmore : Splits more rest) :
    Splits (tokens ++ more) (front ++ rest) := by
  induction h with
  | nil => exact hmore
  | cons hspelled hstop _ ih =>
      rw [List.cons_append, List.append_assoc]
      exact .cons hspelled hstop ih

theorem splits (h : SplitsBefore rest tokens front) : Splits tokens front := by
  induction h with
  | nil => exact .nil
  | cons hspelled hstop _ ih => exact .cons hspelled hstop.of_append ih

/-- Only the last token depends on what follows. -/
theorem of_splits (h : Splits tokens front)
    (hlast : ∀ token ∈ tokens.getLast?, token.StopsAt rest) : SplitsBefore rest tokens front := by
  induction h with
  | nil => exact .nil
  | @cons token tokens lexeme front hspelled hstop hfront ih =>
      cases hfront with
      | nil => exact .cons hspelled (hlast token rfl) .nil
      | cons hspelled' _ _ =>
          refine .cons hspelled ?_ (ih hlast)
          obtain ⟨c, more, rfl, -⟩ := Token.scan_of_spelled hspelled' (Token.stopsAt_nil _)
          exact hstop

theorem exists_of_append (h : Splits (tokens ++ more) front) :
    ∃ before rest, front = before ++ rest ∧ SplitsBefore rest tokens before ∧ Splits more rest := by
  induction tokens generalizing front with
  | nil => exact ⟨[], front, rfl, .nil, h⟩
  | cons token tokens ih =>
      obtain ⟨lexeme, others, rfl, hspelled, hstop, hothers⟩ := h.cons_inv
      obtain ⟨before, rest, rfl, hbefore, hmore⟩ := ih hothers
      exact ⟨lexeme ++ before, rest, by simp, .cons hspelled hstop hbefore, hmore⟩

theorem exists_of_concat {token : Token} (h : Splits (tokens ++ [token]) front) :
    ∃ before lexeme, front = before ++ lexeme ∧ token.Spelled lexeme := by
  obtain ⟨before, rest, rfl, -, hlast⟩ := exists_of_append h
  obtain ⟨lexeme, others, rfl, hspelled, -, hothers⟩ := hlast.cons_inv
  cases hothers
  exact ⟨before, lexeme, by simp, hspelled⟩

end SplitsBefore

namespace Lexemes

theorem scan_cons_of_faulty {c : Char} {rest : List Char} {fault : Token.Fault}
    (h : Token.Faulty (c :: rest) fault) (p : Position) :
    scan p (c :: rest) = .error ⟨fault.cause, p.after fault.before⟩ := by
  have hscan := Token.scan_eq_error_iff.mpr h
  rw [scan]
  split
  · next fault' hfault =>
      rw [hscan] at hfault
      cases hfault
      rfl
  · next s hs =>
      rw [hscan] at hs
      cases hs

/-- The scanner fails exactly at the first place where no token can be read. -/
theorem scan_eq_error_iff {p : Position} {source : List Char} {e : ParseError} :
    scan p source = .error e ↔ ∃ tokens front rest fault, source = front ++ rest ∧
      SplitsBefore rest tokens front ∧ Token.Faulty rest fault ∧
      e = ⟨fault.cause, p.after (front ++ fault.before)⟩ := by
  constructor
  · intro h
    fun_induction scan p source with
    | case1 p => cases h
    | case2 p c rest fault hfault =>
        cases h
        exact ⟨[], [], c :: rest, fault, rfl, .nil, Token.scan_eq_error_iff.mp hfault, rfl⟩
    | case3 p c rest s hs e' he ih =>
        cases h
        obtain ⟨hspelled, hstop⟩ := Token.spelled_of_scan hs
        obtain ⟨tokens, front, rest', fault, hrest, hsplits, hfault, rfl⟩ := ih he
        refine ⟨s.token :: tokens, c :: s.more ++ front, rest', fault, ?_, ?_, hfault, ?_⟩
        · rw [List.append_assoc, ← hrest, List.cons_append, Token.append_of_scan hs]
        · exact .cons hspelled (hrest ▸ hstop) hsplits
        · rw [List.append_assoc, Position.after_append p]
    | case4 p c rest s hs more hmore ih => cases h
  · rintro ⟨tokens, front, rest, fault, rfl, hsplits, hfault, rfl⟩
    induction hsplits generalizing p with
    | nil =>
        cases rest with
        | nil => cases hfault
        | cons c rest => exact scan_cons_of_faulty hfault p
    | @cons token tokens lexeme front hspelled hstop _ ih =>
        obtain ⟨c, more, rfl, hscan⟩ := Token.scan_of_spelled hspelled hstop
        rw [List.append_assoc, List.cons_append, scan_cons hscan, ih, List.append_assoc,
          Position.after_append p]
        rfl

end Lexemes

end MiniLisp
