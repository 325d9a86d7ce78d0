import Mathlib.Data.List.Basic
import MiniLisp.Proofs.Reader.Source
import MiniLisp.Proofs.Token.Faults

/-!
Putting source texts together. A text that can be read, with no white space at its ends, can stand
inside a list or behind a quote and keeps its meaning there, however it is spelled: nothing at its
ends merges with the separators and parentheses around it. The whole takes one level more than its
parts.
-/

namespace MiniLisp

def Trimmed (cs : List Char) : Prop :=
  (∀ c ∈ cs.head?, Token.isBlank c = false) ∧ ∀ c ∈ cs.getLast?, Token.isBlank c = false

structure Separator where
  text : String
  ne_nil : text.toList ≠ []
  blank : ∀ c ∈ text.toList, Token.isBlank c = true

/-- A text without white space at its ends that is read as a value within a limit. -/
structure Spelling (limit : Nat) where
  text : String
  value : Value
  trimmed : Trimmed text.toList
  parse_eq : parse limit text = .ok value

/-- `Spells limit cs v` says that the characters `cs` are those of an expression for `v`, with
nothing around it. -/
def Spells (limit : Nat) (cs : List Char) (v : Value) : Prop :=
  ∃ used, Splits used cs ∧ Derives limit used v

/-! ### Trimmed texts and their tokens -/

theorem Token.Spelled.ne_nil {token : Token} {lexeme : List Char} (h : token.Spelled lexeme) :
    lexeme ≠ [] := by
  obtain ⟨c, more, rfl, -⟩ := scan_of_spelled h (stopsAt_nil token)
  exact List.cons_ne_nil c more

theorem trimmed_of_forall {cs : List Char} (h : ∀ c ∈ cs, Text.isSymbolPart c = true) :
    Trimmed cs := by
  refine ⟨fun c hc => ?_, fun c hc => ?_⟩
  · exact Token.isBlank_of_isSymbolPart (h c (List.mem_of_head? hc))
  · exact Token.isBlank_of_isSymbolPart (h c (List.mem_of_getLast? hc))

theorem Token.Spelled.trimmed {token : Token} {lexeme : List Char} (h : token.Spelled lexeme)
    (hblank : token ≠ .blank) : Trimmed lexeme := by
  cases h with
  | lparen => simp [Trimmed, isBlank]
  | rparen => simp [Trimmed, isBlank]
  | quote => simp [Trimmed, isBlank]
  | dot => simp [Trimmed, isBlank]
  | number _ hdigits =>
      refine trimmed_of_forall fun c hc => ?_
      simp [Text.isSymbolPart, hdigits c hc]
  | string => simp [Trimmed, isBlank, List.getLast?_cons]
  | symbol hname => exact trimmed_of_forall fun c hc => Text.isSymbolPart_of_mem hname hc
  | blank => exact absurd rfl hblank

variable {limit : Nat} {used more : List Token} {cs rest : List Char} {v : Value}

theorem Derives.trimmed (h : Derives limit used v) (hsplits : Splits used cs) : Trimmed cs := by
  constructor
  · obtain ⟨token, more, rfl, hblank⟩ := h.head_ne_blank
    obtain ⟨lexeme, rest, rfl, hspelled, -, -⟩ := hsplits.cons_inv
    rw [List.head?_append_of_ne_nil _ hspelled.ne_nil]
    exact (hspelled.trimmed hblank).1
  · obtain ⟨before, token, rfl, hblank⟩ := h.last_ne_blank
    obtain ⟨front, lexeme, rfl, hspelled⟩ := SplitsBefore.exists_of_concat hsplits
    rw [List.getLast?_append_of_ne_nil _ hspelled.ne_nil]
    exact (hspelled.trimmed hblank).2

theorem exists_blank_of_head (h : Splits (.blank :: more) cs) :
    ∃ c ∈ cs.head?, Token.isBlank c = true := by
  obtain ⟨run, rest, rfl, hspelled, -, -⟩ := h.cons_inv
  obtain ⟨hne, hblanks⟩ := hspelled.blank_inv
  rw [List.head?_append_of_ne_nil _ hne]
  exact ⟨_, List.head?_eq_some_head hne, hblanks _ (List.head_mem hne)⟩

theorem exists_blank_of_last (h : Splits (used ++ [.blank]) cs) :
    ∃ c ∈ cs.getLast?, Token.isBlank c = true := by
  obtain ⟨front, run, rfl, hspelled⟩ := SplitsBefore.exists_of_concat h
  obtain ⟨hne, hblanks⟩ := hspelled.blank_inv
  rw [List.getLast?_append_of_ne_nil _ hne]
  exact ⟨_, List.getLast?_eq_some_getLast hne, hblanks _ (List.getLast_mem hne)⟩

namespace Spells

theorem trimmed (h : Spells limit cs v) : Trimmed cs := by
  obtain ⟨used, hsplits, hderives⟩ := h
  exact hderives.trimmed hsplits

theorem ne_nil (h : Spells limit cs v) : cs ≠ [] := by
  obtain ⟨used, hsplits, hderives⟩ := h
  obtain ⟨token, more, rfl, -⟩ := hderives.head_ne_blank
  obtain ⟨lexeme, rest, rfl, hspelled, -, -⟩ := hsplits.cons_inv
  exact List.append_ne_nil_of_left_ne_nil hspelled.ne_nil rest

theorem head?_append (h : Spells limit cs v) (rest : List Char) :
    ∀ c ∈ (cs ++ rest).head?, Token.isBlank c = false := by
  rw [List.head?_append_of_ne_nil _ h.ne_nil]
  exact h.trimmed.1

end Spells

/-- There is nothing to skip around a trimmed text. -/
theorem spells_of_trimmed {text : String} (htrimmed : Trimmed text.toList)
    (h : parse limit text = .ok v) : Spells limit text.toList v := by
  obtain ⟨before, used, after, hsplits, hbefore, hafter, hderives⟩ := parse_eq_ok_iff.mp h
  obtain rfl : before = [] := by
    refine hbefore.resolve_right ?_
    rintro rfl
    obtain ⟨c, hc, hblank⟩ := exists_blank_of_head hsplits
    rw [htrimmed.1 c hc] at hblank
    cases hblank
  obtain rfl : after = [] := by
    refine hafter.resolve_right ?_
    rintro rfl
    obtain ⟨c, hc, hblank⟩ := exists_blank_of_last hsplits
    rw [htrimmed.2 c hc] at hblank
    cases hblank
  exact ⟨used, by simpa using hsplits, hderives⟩

/-! ### Joining texts -/

/-- Behind an expression there may be white space, a closing parenthesis or nothing. -/
theorem Derives.splits_append (h : Derives limit used v) (hused : Splits used cs)
    (hmore : Splits more rest) (hrest : ∀ c ∈ rest.head?, Token.isBlank c = true ∨ c = ')') :
    Splits (used ++ more) (cs ++ rest) := by
  refine (SplitsBefore.of_splits hused fun token htoken => ?_).append hmore
  obtain ⟨before, last, rfl, hblank⟩ := h.last_ne_blank
  obtain rfl : last = token := by simpa using htoken
  refine Token.stopsAt_of_delimiter hblank fun c hc => ?_
  rcases hrest c hc with hc | rfl
  · exact Token.mem_delimiters_of_isBlank hc
  · decide

namespace Separator

theorem head?_append (sep : Separator) (rest : List Char) :
    ∀ c ∈ (sep.text.toList ++ rest).head?, Token.isBlank c = true := by
  rw [List.head?_append_of_ne_nil _ sep.ne_nil]
  exact fun c hc => sep.blank c (List.mem_of_head? hc)

theorem splits_append (sep : Separator) (hmore : Splits more rest)
    (hrest : ∀ c ∈ rest.head?, Token.isBlank c = false) :
    Splits (.blank :: more) (sep.text.toList ++ rest) :=
  .cons (.blank sep.ne_nil sep.blank) hrest hmore

end Separator

namespace Spelling

def ofSpells (text : String) (value : Value) (h : Spells limit text.toList value) :
    Spelling limit where
  text := text
  value := value
  trimmed := h.trimmed
  parse_eq := by
    obtain ⟨used, hsplits, hderives⟩ := h
    exact parse_eq_ok_iff.mpr ⟨[], used, [], by simpa using hsplits, .inl rfl, .inl rfl, hderives⟩

theorem spells (s : Spelling limit) : Spells limit s.text.toList s.value :=
  spells_of_trimmed s.trimmed s.parse_eq

theorem splits_close (s : Spelling limit) :
    ∃ used, Derives limit used s.value ∧ Splits (used ++ [.rparen]) (s.text.toList ++ [')']) := by
  obtain ⟨used, hused, hderives⟩ := s.spells
  have hclose : Splits [.rparen] [')'] := Splits.nil.single .rparen fun _ => rfl
  exact ⟨used, hderives, hderives.splits_append hused hclose (by simp)⟩

end Spelling

def closedText (head : List (Spelling limit × Separator)) : String :=
  String.join (head.map fun part => part.1.text ++ part.2.text)

theorem toList_closedText_cons (part : Spelling limit × Separator)
    (head : List (Spelling limit × Separator)) :
    (closedText (part :: head)).toList =
      part.1.text.toList ++ (part.2.text.toList ++ (closedText head).toList) := by
  simp [closedText, String.toList_join]

/-- Texts with a separator after each spell a row of expressions, whatever follows them. -/
theorem exists_splits_closedText (head : List (Spelling limit × Separator))
    (hmore : Splits more rest) (hrest : ∀ c ∈ rest.head?, Token.isBlank c = false) :
    ∃ parts : List Part, (∀ part ∈ parts, Derives limit part.1 part.2) ∧
      parts.map Prod.snd = head.map (fun part => part.1.value) ∧
      Splits (closedParts parts ++ more) ((closedText head).toList ++ rest) ∧
      ∀ c ∈ ((closedText head).toList ++ rest).head?, Token.isBlank c = false := by
  induction head with
  | nil => exact ⟨[], by simp, rfl, hmore, hrest⟩
  | cons part head ih =>
      obtain ⟨s, sep⟩ := part
      obtain ⟨parts, hparts, hvalues, hsplits, hfollows⟩ := ih
      obtain ⟨used, hused, hderives⟩ := s.spells
      -- The separator is one token: the text before it and what follows have no white space there.
      have hgap := sep.splits_append hsplits hfollows
      have hjoined := hderives.splits_append hused hgap fun c hc => .inl (sep.head?_append _ c hc)
      refine ⟨(used, s.value) :: parts, List.forall_mem_cons.mpr ⟨hderives, hparts⟩, ?_, ?_, ?_⟩
      · rw [List.map_cons, hvalues, List.map_cons]
      · simpa [toList_closedText_cons] using hjoined
      · rw [toList_closedText_cons, List.append_assoc]
        exact s.spells.head?_append _

/-! ### Composed texts -/

theorem spells_list (head : List (Spelling limit × Separator)) (last : Spelling limit) :
    Spells (limit + 1) ("(" ++ closedText head ++ last.text ++ ")").toList
      (.list (head.map (fun part => part.1.value) ++ [last.value])) := by
  obtain ⟨used, hlast, hinner⟩ := last.splits_close
  obtain ⟨parts, hparts, hvalues, hsplits, -⟩ :=
    exists_splits_closedText head hinner (last.spells.head?_append _)
  have hopen : Splits _ ('(' :: _) := hsplits.single .lparen fun _ => rfl
  refine ⟨_, ?_, hvalues ▸ Derives.list_snoc hparts hlast⟩
  simpa using hopen

theorem spells_dotted (head : List (Spelling limit × Separator)) (gap : Separator)
    (tail : Spelling limit) :
    Spells (limit + 1) ("(" ++ closedText head ++ "." ++ gap.text ++ tail.text ++ ")").toList
      (.dotted (head.map fun part => part.1.value) tail.value) := by
  obtain ⟨used, htail, hinner⟩ := tail.splits_close
  have hgap := gap.splits_append hinner (tail.spells.head?_append _)
  have hdot : Splits _ ('.' :: _) := hgap.single .dot fun _ => rfl
  obtain ⟨parts, hparts, hvalues, hsplits, -⟩ :=
    exists_splits_closedText head hdot (by simp [Token.isBlank])
  have hopen : Splits _ ('(' :: _) := hsplits.single .lparen fun _ => rfl
  refine ⟨_, ?_, hvalues ▸ Derives.dotted hparts htail⟩
  simpa using hopen

theorem spells_quote (s : Spelling limit) :
    Spells (limit + 1) ("'" ++ s.text).toList (.list [.atom "quote", s.value]) := by
  obtain ⟨used, hused, hderives⟩ := s.spells
  have hquote : Splits _ ('\'' :: _) := hused.single .quote fun _ => rfl
  refine ⟨_, ?_, hderives.quote⟩
  simpa using hquote

theorem spells_empty : Spells (limit + 1) "()".toList (.list []) := by
  have hclose : Splits [.rparen] [')'] := Splits.nil.single .rparen fun _ => rfl
  exact ⟨_, hclose.single .lparen fun _ => rfl, .empty⟩

namespace Spelling

def leaf (text : String) {token : Token} {value : Value} (hspelled : token.Spelled text.toList)
    (hderives : Derives limit [token] value) : Spelling limit :=
  ofSpells text value ⟨[token], by
    simpa using Splits.cons hspelled (Token.stopsAt_nil token) .nil, hderives⟩

def symbol (name : String) (hname : Text.isSymbol name.toList = true) (htrue : name ≠ "#t")
    (hfalse : name ≠ "#f") : Spelling limit :=
  leaf name (by simpa using Token.Spelled.symbol hname) (.atom htrue hfalse)

def empty : Spelling (limit + 1) :=
  ofSpells "()" (.list []) spells_empty

def list (head : List (Spelling limit × Separator)) (last : Spelling limit) :
    Spelling (limit + 1) :=
  ofSpells _ _ (spells_list head last)

@[simp] theorem list_text (head : List (Spelling limit × Separator)) (last : Spelling limit) :
    (list head last).text = "(" ++ closedText head ++ last.text ++ ")" := rfl

@[simp] theorem list_value (head : List (Spelling limit × Separator)) (last : Spelling limit) :
    (list head last).value = .list (head.map (fun part => part.1.value) ++ [last.value]) := rfl

def dotted (head : List (Spelling limit × Separator)) (gap : Separator) (tail : Spelling limit) :
    Spelling (limit + 1) :=
  ofSpells _ _ (spells_dotted head gap tail)

@[simp] theorem dotted_text (head : List (Spelling limit × Separator)) (gap : Separator)
    (tail : Spelling limit) : (dotted head gap tail).text =
      "(" ++ closedText head ++ "." ++ gap.text ++ tail.text ++ ")" := rfl

@[simp] theorem dotted_value (head : List (Spelling limit × Separator)) (gap : Separator)
    (tail : Spelling limit) :
    (dotted head gap tail).value = .dotted (head.map fun part => part.1.value) tail.value := rfl

def quote (s : Spelling limit) : Spelling (limit + 1) :=
  ofSpells _ _ (spells_quote s)

def quoteSymbol (limit : Nat) : Spelling limit :=
  symbol "quote" (by decide +kernel) (by decide) (by decide)

end Spelling

theorem open_closedText_quoteSymbol (limit : Nat) (gap : Separator) :
    "(" ++ closedText [(.quoteSymbol limit, gap)] = "(quote" ++ gap.text := by
  have htext : (Spelling.quoteSymbol limit).text = "quote" := rfl
  rw [← String.toList_inj]
  simp [closedText, htext]

/-- Texts keep their meaning inside a list, a dotted list and a quotation, whatever separates them.
A quote character is short for the list that begins with its name. -/
theorem parse_composed (limit : Nat) (head : List (Spelling limit × Separator))
    (last : Spelling limit) (gap : Separator) :
    parse (limit + 1) "()" = .ok (.list []) ∧
    parse (limit + 1) ("(" ++ closedText head ++ last.text ++ ")") =
      .ok (.list (head.map (fun part => part.1.value) ++ [last.value])) ∧
    parse (limit + 1) ("(" ++ closedText head ++ "." ++ gap.text ++ last.text ++ ")") =
      .ok (.dotted (head.map fun part => part.1.value) last.value) ∧
    parse (limit + 1) ("'" ++ last.text) = .ok (.list [.atom "quote", last.value]) ∧
    parse (limit + 1) ("(quote" ++ gap.text ++ last.text ++ ")") =
      .ok (.list [.atom "quote", last.value]) := by
  refine ⟨Spelling.empty.parse_eq, (Spelling.list head last).parse_eq,
    (Spelling.dotted head gap last).parse_eq, last.quote.parse_eq, ?_⟩
  rw [← open_closedText_quoteSymbol limit gap]
  exact (Spelling.list [(.quoteSymbol limit, gap)] last).parse_eq

/-- A string full of punctuation, a quotation and an empty list, with line breaks between them. -/
theorem parse_composed_over_lines :
    ∃ (head : List (Spelling 1 × Separator)) (last : Spelling 1) (gap : Separator),
      "(" ++ closedText head ++ "." ++ gap.text ++ last.text ++ ")" =
        "(\"(' .\"\n\t'x .\r\n())" ∧
      parse 2 ("(" ++ closedText head ++ "." ++ gap.text ++ last.text ++ ")") =
        .ok (.dotted [.string "(' .", .list [.atom "quote", .atom "x"]] (.list [])) := by
  refine ⟨[(⟨"\"(' .\"", .string "(' .", by simp [Trimmed, Token.isBlank], by decide +kernel⟩,
        ⟨"\n\t", by simp, by simp [Token.isBlank]⟩),
      (⟨"'x", .list [.atom "quote", .atom "x"], by simp [Trimmed, Token.isBlank],
          by decide +kernel⟩,
        ⟨" ", by simp, by simp [Token.isBlank]⟩)],
    .empty, ⟨"\r\n", by simp, by simp [Token.isBlank]⟩, ?_, ?_⟩
  · decide +kernel
  · exact (parse_composed 1 _ _ _).2.2.1

end MiniLisp
