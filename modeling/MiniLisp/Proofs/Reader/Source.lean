import MiniLisp.Proofs.Reader.Exactness
import MiniLisp.Proofs.Token.Spelling
import MiniLisp.Reader.Source

/-!
The source texts of a value: the characters split into tokens, and these derive the value once a
blank at either end is left out. Such a value is no deeper than the limit, its names are symbols and
its numbers are not negative.
-/

namespace MiniLisp

def AtMostBlank (tokens : List Token) : Prop :=
  tokens = [] ∨ tokens = [.blank]

theorem skipBlank_append (lexemes : List Lexeme) :
    ∃ before, AtMostBlank (before.map Lexeme.token) ∧ lexemes = before ++ skipBlank lexemes := by
  unfold skipBlank
  split
  · next p rest => exact ⟨[⟨.blank, p⟩], .inr rfl, rfl⟩
  · exact ⟨[], .inl rfl, rfl⟩

theorem skipBlank_eq_nil {lexemes : List Lexeme} (h : AtMostBlank (lexemes.map Lexeme.token)) :
    skipBlank lexemes = [] := by
  rcases h with h | h
  · obtain rfl := List.map_eq_nil_iff.mp h
    rfl
  · obtain ⟨⟨token, p⟩, rfl, htoken⟩ := List.map_eq_singleton_iff.mp h
    obtain rfl : token = .blank := htoken
    rfl

theorem skipBlank_of_ne_blank {lexeme : Lexeme} (h : lexeme.token ≠ .blank) (rest : List Lexeme) :
    skipBlank (lexeme :: rest) = lexeme :: rest := by
  rw [skipBlank]
  intro p rest' heq
  cases heq
  exact h rfl

/-- White space in front of an expression is skipped, and nothing else is. -/
theorem skipBlank_append_of_derives {limit : Nat} {before used rest : List Lexeme} {v : Value}
    (hbefore : AtMostBlank (before.map Lexeme.token))
    (h : Derives limit (used.map Lexeme.token) v) :
    skipBlank (before ++ (used ++ rest)) = used ++ rest := by
  rcases hbefore with hbefore | hbefore
  · obtain rfl := List.map_eq_nil_iff.mp hbefore
    obtain ⟨token, more, hused, hblank⟩ := h.head_ne_blank
    obtain ⟨lexeme, lexemes, rfl, rfl, -⟩ := List.map_eq_cons_iff.mp hused
    exact skipBlank_of_ne_blank hblank (lexemes ++ rest)
  · obtain ⟨⟨token, p⟩, rfl, htoken⟩ := List.map_eq_singleton_iff.mp hbefore
    obtain rfl : token = .blank := htoken
    rfl

theorem Lexemes.parse_eq_ok_iff {limit : Nat} {lexemes : Lexemes} {v : Value} :
    lexemes.parse limit = .ok v ↔
      ∃ before used after, lexemes.items.map Lexeme.token = before ++ used ++ after ∧
        AtMostBlank before ∧ AtMostBlank after ∧ Derives limit used v := by
  constructor
  · intro h
    obtain ⟨before, hbefore, hitems⟩ := skipBlank_append lexemes.items
    unfold parse at h
    split at h
    · cases h
    · next w rest hread =>
        obtain ⟨after, hafter, hrest⟩ := skipBlank_append rest
        split at h
        · next hnil =>
            cases h
            obtain ⟨used, hused, hderives⟩ := derives_of_readExpression hread
            rw [hnil, List.append_nil] at hrest
            refine ⟨_, _, _, ?_, hbefore, hafter, hderives⟩
            rw [hitems, hused, hrest, List.map_append, List.map_append, List.append_assoc]
        · cases h
  · rintro ⟨before, used, after, hitems, hbefore, hafter, hderives⟩
    obtain ⟨lexemes', afters, hlexemes, hlexemes', rfl⟩ := List.map_eq_append_iff.mp hitems
    obtain ⟨befores, useds, rfl, rfl, rfl⟩ := List.map_eq_append_iff.mp hlexemes'
    rw [List.append_assoc] at hlexemes
    unfold parse
    rw [hlexemes, skipBlank_append_of_derives hbefore hderives,
      readExpression_of_derives hderives]
    simp only [skipBlank_eq_nil hafter]

theorem parse_of_tokenize {limit : Nat} {source : String} {lexemes : Lexemes}
    (h : tokenize source = .ok lexemes) : parse limit source = lexemes.parse limit := by
  rw [parse, h]
  rfl

theorem parse_of_tokenize_error {limit : Nat} {source : String} {e : ParseError}
    (h : tokenize source = .error e) : parse limit source = .error e := by
  rw [parse, h]
  rfl

theorem parse_eq_ok_iff {limit : Nat} {source : String} {v : Value} :
    parse limit source = .ok v ↔
      ∃ before used after, Splits (before ++ used ++ after) source.toList ∧
        AtMostBlank before ∧ AtMostBlank after ∧ Derives limit used v := by
  constructor
  · intro h
    cases hscan : tokenize source with
    | error e =>
        rw [parse_of_tokenize_error hscan] at h
        cases h
    | ok lexemes =>
        rw [parse_of_tokenize hscan] at h
        obtain ⟨before, used, after, hitems, hbefore, hafter, hderives⟩ :=
          Lexemes.parse_eq_ok_iff.mp h
        refine ⟨before, used, after, ?_, hbefore, hafter, hderives⟩
        rw [← hitems]
        exact Lexemes.splits_of_scan hscan
  · rintro ⟨before, used, after, hsplits, hbefore, hafter, hderives⟩
    obtain ⟨lexemes, hscan, hitems⟩ := Lexemes.scan_of_splits hsplits .start
    rw [parse_of_tokenize hscan]
    exact Lexemes.parse_eq_ok_iff.mpr ⟨before, used, after, hitems, hbefore, hafter, hderives⟩

theorem depth_le_of_parse {limit : Nat} {source : String} {v : Value}
    (h : parse limit source = .ok v) : v.depth ≤ limit := by
  obtain ⟨before, used, after, -, -, -, hderives⟩ := parse_eq_ok_iff.mp h
  exact hderives.depth_le

namespace Value

/-- What a part of a value must be like for the value to have a source text. -/
def Spellable : Value → Prop
  | atom name => Text.isSymbol name.toList = true ∧ name ≠ "#t" ∧ name ≠ "#f"
  | number n => 0 ≤ n
  | _ => True

def Expressible (v : Value) : Prop :=
  ∀ u ∈ v.nodes, u.Spellable

instance (v : Value) : Decidable v.Spellable :=
  match v with
  | atom _ => inferInstanceAs (Decidable (_ ∧ _ ∧ _))
  | number _ => inferInstanceAs (Decidable (_ ≤ _))
  | string _ => inferInstanceAs (Decidable True)
  | bool _ => inferInstanceAs (Decidable True)
  | list _ => inferInstanceAs (Decidable True)
  | dotted _ _ => inferInstanceAs (Decidable True)

instance (v : Value) : Decidable v.Expressible :=
  inferInstanceAs (Decidable (∀ u ∈ v.nodes, u.Spellable))

end Value

theorem spellable_symbolValue {name : List Char} (hname : Text.isSymbol name = true) :
    (Reader.symbolValue (String.ofList name)).Spellable := by
  unfold Reader.symbolValue
  split
  · trivial
  · next htrue =>
      split
      · trivial
      · next hfalse => exact ⟨by rwa [String.toList_ofList], htrue, hfalse⟩

theorem spellable_of_spelled {token : Token} {lexeme : List Char} (h : token.Spelled lexeme) :
    ∀ u ∈ token.leaves, u.Spellable := by
  intro u hu
  cases h with
  | number =>
      obtain rfl := List.mem_singleton.mp hu
      exact Int.natCast_nonneg _
  | string =>
      obtain rfl := List.mem_singleton.mp hu
      trivial
  | symbol hname =>
      obtain rfl := List.mem_singleton.mp hu
      exact spellable_symbolValue hname
  | quote =>
      obtain rfl := List.mem_singleton.mp hu
      exact ⟨by decide +kernel, by decide, by decide⟩
  | _ => simp [Token.leaves] at hu

theorem spellable_of_splits {tokens : List Token} {cs : List Char} (h : Splits tokens cs) :
    ∀ u ∈ tokens.flatMap Token.leaves, u.Spellable := by
  intro u hu
  obtain ⟨token, htoken, hu⟩ := List.mem_flatMap.mp hu
  obtain ⟨lexeme, hspelled⟩ := h.exists_spelled token htoken
  exact spellable_of_spelled hspelled u hu

theorem expressible_of_parse {limit : Nat} {source : String} {v : Value}
    (h : parse limit source = .ok v) : v.Expressible := by
  obtain ⟨before, used, after, hsplits, -, -, hderives⟩ := parse_eq_ok_iff.mp h
  have hleaves : ∀ u ∈ v.leaves, u.Spellable := by
    rw [hderives.leaves_eq]
    intro u hu
    exact spellable_of_splits hsplits u (by simp [List.flatMap_append, hu])
  intro u hu
  cases u with
  | list items => trivial
  | dotted head tail => trivial
  | _ => exact hleaves _ (Value.mem_leaves hu rfl)

end MiniLisp
