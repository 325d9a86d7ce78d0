import MiniLisp.Proofs.Token.Faults

/-!
Texts that are cut off. When a text that splits into tokens ends early, its tokens stay as they are
up to the cut, and what is left of the token at the cut spells a token of the same kind. Only a
string literal is no token any more without its closing quote.
-/

namespace MiniLisp

namespace Token

/-- `Alike token' token` says that the tokens differ at most in which number or which name they
are. -/
inductive Alike : Token → Token → Prop where
  | refl (token : Token) : Alike token token
  | number (m n : Int) : Alike (.number m) (.number n)
  | symbol (name name' : String) : Alike (.symbol name) (.symbol name')

theorem Alike.blank_iff {token token' : Token} (h : Alike token' token) :
    token' = .blank ↔ token = .blank := by
  cases h with
  | refl => exact Iff.rfl
  | number m n => simp
  | symbol name name' => simp

theorem faulty_of_escaped_append {contents front rest : List Char}
    (h : Text.Escaped contents (front ++ rest)) :
    Faulty ('"' :: front) ⟨.unterminatedString, []⟩ := by
  obtain ⟨contents', body, hbody, rfl | rfl⟩ := h.of_append
  · exact .unclosed hbody
  · exact .cutEscape hbody

/-- What is left of a token spells a token like it, unless the token is a string. -/
theorem Spelled.of_append {token : Token} {front rest : List Char}
    (h : token.Spelled (front ++ rest)) (hfront : front ≠ []) :
    (∃ token', token'.Spelled front ∧ Alike token' token) ∨
      Faulty front ⟨.unterminatedString, []⟩ := by
  by_cases hrest : rest = []
  · subst hrest
    rw [List.append_nil] at h
    exact .inl ⟨token, h, .refl token⟩
  generalize hcs : front ++ rest = cs at h
  have hlength : cs.length ≠ 1 := by
    rw [← hcs, List.length_append]
    have hpos := List.length_pos_iff.mpr hfront
    have hpos' := List.length_pos_iff.mpr hrest
    omega
  cases h with
  | lparen => simp at hlength
  | rparen => simp at hlength
  | quote => simp at hlength
  | dot => simp at hlength
  | number _ hdigits =>
      subst hcs
      have hleft : ∀ c ∈ front, c.isDigit = true := fun c hc =>
        hdigits c (List.mem_append_left rest hc)
      exact .inl ⟨_, .number hfront hleft, .number _ _⟩
  | @string contents body hbody =>
      right
      obtain ⟨c, front, rfl⟩ := List.exists_cons_of_ne_nil hfront
      obtain ⟨rfl, htail⟩ := List.cons.inj hcs
      -- The cut takes away the closing quote, so what is left of the body is in front of it.
      rcases List.append_eq_append_iff.mp htail with ⟨middle, rfl, -⟩ | ⟨middle, rfl, hmiddle⟩
      · exact faulty_of_escaped_append hbody
      · obtain ⟨rfl, -⟩ : middle = [] ∧ rest = ['"'] := by
          rcases List.singleton_eq_append_iff.mp hmiddle with h | ⟨_, h⟩
          · exact h
          · exact absurd h hrest
        rw [List.append_nil]
        exact .unclosed hbody
  | symbol hname =>
      subst hcs
      obtain ⟨c, front, rfl⟩ := List.exists_cons_of_ne_nil hfront
      have hleft : Text.isSymbol (c :: front) = true := by
        simp only [Text.isSymbol, List.cons_append, List.all_append, Bool.and_eq_true] at hname ⊢
        exact ⟨hname.1, hname.2.1⟩
      exact .inl ⟨_, .symbol hleft, .symbol _ _⟩
  | blank _ hblanks =>
      subst hcs
      have hleft : ∀ c ∈ front, isBlank c = true := fun c hc =>
        hblanks c (List.mem_append_left rest hc)
      exact .inl ⟨_, .blank hfront hleft, .refl .blank⟩

end Token

/-- `Cut left tokens` says that `left` is a front part of `tokens` or, if a token is cut as well,
ends with what is left of it. -/
inductive Cut : List Token → List Token → Prop where
  | nil {tokens : List Token} : Cut [] tokens
  | last {token token' : Token} {tokens : List Token} :
      token'.Alike token → Cut [token'] (token :: tokens)
  | cons {token : Token} {left tokens : List Token} :
      Cut left tokens → Cut (token :: left) (token :: tokens)

theorem Cut.cons_inv {token token' : Token} {left tokens : List Token}
    (h : Cut (token' :: left) (token :: tokens)) : token'.Alike token ∧ Cut left tokens := by
  cases h with
  | last halike => exact ⟨halike, .nil⟩
  | cons hleft => exact ⟨.refl _, hleft⟩

/-- A text that is cut off has its tokens up to the cut, unless the cut is inside a string. -/
theorem Splits.of_append {tokens : List Token} {front rest : List Char}
    (h : Splits tokens (front ++ rest)) :
    (∃ left, Splits left front ∧ Cut left tokens) ∨
      ∀ p, ∃ q, Lexemes.scan p front = .error ⟨.unterminatedString, q⟩ := by
  generalize hcs : front ++ rest = cs at h
  induction h generalizing front with
  | nil =>
      obtain ⟨rfl, -⟩ := List.append_eq_nil_iff.mp hcs
      exact .inl ⟨[], .nil, .nil⟩
  | @cons token tokens lexeme more hspelled hstop _ ih =>
      rcases List.append_eq_append_iff.mp hcs with ⟨middle, rfl, -⟩ | ⟨middle, rfl, hmore⟩
      · by_cases hfront : front = []
        · subst hfront
          exact .inl ⟨[], .nil, .nil⟩
        -- The cut is in or right after this token.
        rcases hspelled.of_append hfront with ⟨token', hspelled', halike⟩ | hfault
        · have hsplits := Splits.cons hspelled' (Token.stopsAt_nil token') .nil
          rw [List.append_nil] at hsplits
          exact .inl ⟨[token'], hsplits, .last halike⟩
        · obtain ⟨c, front, rfl⟩ := List.exists_cons_of_ne_nil hfront
          exact .inr fun p => ⟨_, Lexemes.scan_cons_of_faulty hfault p⟩
      · subst hmore
        rcases ih rfl with ⟨left, hleft, hcut⟩ | hfault
        · exact .inl ⟨token :: left, .cons hspelled hstop.of_append hleft, hcut.cons⟩
        · right
          intro p
          obtain ⟨c, others, rfl, hscan⟩ := Token.scan_of_spelled hspelled hstop.of_append
          obtain ⟨q, hq⟩ := hfault (p.after (c :: others))
          refine ⟨q, ?_⟩
          rw [List.cons_append, Lexemes.scan_cons hscan, hq]
          rfl

end MiniLisp
