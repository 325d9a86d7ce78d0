import MiniLisp.Proofs.Token.Spelling
import MiniLisp.Proofs.Value.Nodes
import MiniLisp.Value.Text

/-!
The tokens of a value's text. When every name in a value is a symbol and every string is free of
quotes and backslashes, the text splits into the tokens one expects, also where it does not spell
the value itself: truth values and negative numbers are written as symbols, and a dotted list
without elements has white space before its dot.
-/

namespace MiniLisp.Value

mutual

def tokens : Value → List Token
  | atom name => [.symbol name]
  | list items => .lparen :: (tokensAll items ++ [.rparen])
  | dotted head tail =>
      .lparen :: (tokensAll head ++ .blank :: .dot :: .blank :: (tokens tail ++ [.rparen]))
  | number (.ofNat n) => [.number n]
  | number (.negSucc n) => [.symbol (Decimal.text (.negSucc n))]
  | string contents => [.string contents]
  | bool b => [.symbol (boolText b)]

def tokensAll : List Value → List Token
  | [] => []
  | [v] => tokens v
  | v :: w :: vs => tokens v ++ .blank :: tokensAll (w :: vs)

end

/-- A part of a value that is written as the text of its tokens. -/
def Plain : Value → Prop
  | atom name => Text.isSymbol name.toList = true
  | string contents => '"' ∉ contents.toList ∧ '\\' ∉ contents.toList
  | _ => True

/-- A place where every token but white space ends. -/
def Bounds (rest : List Char) : Prop :=
  ∀ c ∈ rest.head?, c = ' ' ∨ c = ')'

theorem bounds_nil : Bounds [] := by
  simp [Bounds]

theorem bounds_space (rest : List Char) : Bounds (' ' :: rest) := by
  simp [Bounds]

theorem bounds_rparen (rest : List Char) : Bounds (')' :: rest) := by
  simp [Bounds]

theorem stopsAt_of_bounds {token : Token} {rest : List Char} (htoken : token ≠ .blank)
    (hrest : Bounds rest) : token.StopsAt rest := by
  refine Token.stopsAt_of_delimiter htoken fun c hc => ?_
  rcases hrest c hc with rfl | rfl <;> decide

theorem spelled_toDigits (n : Nat) : Token.Spelled (.number n) (Nat.toDigits 10 n) := by
  have hspelled := @Token.Spelled.number (Nat.toDigits 10 n) Nat.toDigits_ne_nil
    fun _ hc => Decimal.isDigit_of_mem_toDigits hc
  rwa [Decimal.positional_toDigits] at hspelled

theorem isSymbol_negSucc (n : Nat) : Text.isSymbol (Decimal.chars (.negSucc n)) = true := by
  have hstart : Text.isSymbolStart '-' = true := by decide +kernel
  have hdigits : ∀ c ∈ Nat.toDigits 10 (n + 1), Text.isSymbolPart c = true := by
    intro c hc
    have hdigit := Decimal.isDigit_of_mem_toDigits hc
    simp [Text.isSymbolPart, hdigit]
  simpa [Decimal.chars, Text.isSymbol, hstart] using hdigits

theorem escaped_self {contents : List Char} (hquote : '"' ∉ contents)
    (hbackslash : '\\' ∉ contents) : Text.Escaped contents contents := by
  induction contents with
  | nil => exact .nil
  | cons c contents ih =>
      simp only [List.mem_cons, not_or] at hquote hbackslash
      exact .raw (Ne.symm hquote.1) (Ne.symm hbackslash.1) (ih hquote.2 hbackslash.2)

/-- `Prints v` says that `v`, written where its last token ends, splits into its tokens. -/
def Prints (v : Value) : Prop :=
  ∀ (more : List Token) (rest : List Char), Splits more rest → Bounds rest →
    Splits (v.tokens ++ more) (v.write rest)

theorem prints_of_spelled {v : Value} {token : Token} (htokens : v.tokens = [token])
    (hblank : token ≠ .blank) (hspelled : token.Spelled v.chars) : Prints v := by
  intro more rest hmore hrest
  rw [htokens, write_eq]
  exact .cons hspelled (stopsAt_of_bounds hblank hrest) hmore

theorem not_blank_of_head?_eq {cs : List Char} {d : Char} (h : cs.head? = some d)
    (hd : Text.isSymbolPart d = true) : ∀ c ∈ cs.head?, Token.isBlank c = false := by
  intro c hc
  rw [h, Option.mem_some_iff] at hc
  exact hc ▸ Token.isBlank_of_isSymbolPart hd

theorem head?_write_not_blank {v : Value} (hv : v.Plain) (rest : List Char) :
    ∀ c ∈ (v.write rest).head?, Token.isBlank c = false := by
  cases v with
  | atom name =>
      cases hname : name.toList with
      | nil => simp [Plain, hname, Text.isSymbol] at hv
      | cons d more =>
          simp only [Plain, hname, Text.isSymbol, Bool.and_eq_true] at hv
          have hpart : Text.isSymbolPart d = true := by simp [Text.isSymbolPart, hv.1]
          refine not_blank_of_head?_eq ?_ hpart
          simp [write, hname]
  | list items => simp [write, Token.isBlank]
  | dotted head tail => simp [write, Token.isBlank]
  | number n =>
      cases n with
      | ofNat n =>
          obtain ⟨d, more, hdigits⟩ := List.exists_cons_of_ne_nil (@Nat.toDigits_ne_nil n 10)
          have hdigit : d.isDigit = true :=
            Decimal.isDigit_of_mem_toDigits (hdigits ▸ List.mem_cons_self)
          have hpart : Text.isSymbolPart d = true := by simp [Text.isSymbolPart, hdigit]
          refine not_blank_of_head?_eq ?_ hpart
          simp [write, Decimal.chars, hdigits]
      | negSucc n => simp [write, Decimal.chars, Token.isBlank]
  | string contents => simp [write, Token.isBlank]
  | bool b => cases b <;> simp [write, boolText, Token.isBlank]

theorem splits_space {more : List Token} {rest : List Char} (h : Splits more rest)
    (hrest : ∀ c ∈ rest.head?, Token.isBlank c = false) : Splits (.blank :: more) (' ' :: rest) :=
  @Splits.cons .blank more [' '] rest (.blank (by simp) (by simp [Token.isBlank])) hrest h

theorem splits_rparen {more : List Token} {rest : List Char} (h : Splits more rest) :
    Splits (.rparen :: more) (')' :: rest) :=
  h.single .rparen fun _ => rfl

theorem splits_writeAll {vs : List Value} (hvs : ∀ v ∈ vs, Prints v) (hplain : ∀ v ∈ vs, v.Plain)
    {more : List Token} {rest : List Char} (hmore : Splits more rest) (hrest : Bounds rest) :
    Splits (tokensAll vs ++ more) (writeAll vs rest) := by
  induction vs with
  | nil => exact hmore
  | cons v vs ih =>
      cases vs with
      | nil => exact hvs v List.mem_cons_self more rest hmore hrest
      | cons w vs =>
          have htail := ih (fun u hu => hvs u (List.mem_cons_of_mem v hu))
            (fun u hu => hplain u (List.mem_cons_of_mem v hu))
          have hhead : ∀ c ∈ (writeAll (w :: vs) rest).head?, Token.isBlank c = false := by
            have hw := hplain w (by simp)
            cases vs <;> exact head?_write_not_blank hw _
          -- The space ends the last token of `v` and is a token of its own.
          have hv := hvs v List.mem_cons_self _ _ (splits_space htail hhead) (bounds_space _)
          simpa [tokensAll, writeAll] using hv

/-- A value with plain parts is written as the text of its tokens. -/
theorem prints_of_plain (v : Value) (h : ∀ u ∈ v.nodes, u.Plain) : Prints v := by
  induction v using Value.induction with
  | atom name =>
      have hname : Text.isSymbol name.toList = true := h (atom name) (by simp)
      refine prints_of_spelled rfl (by simp) ?_
      simpa [chars, write] using Token.Spelled.symbol hname
  | list items ih =>
      obtain ⟨-, hitems⟩ := forall_nodes_list.mp h
      intro more rest hmore _
      -- The text is put together from its end.
      have hclose := splits_rparen hmore
      have hinner := splits_writeAll (fun v hv => ih v hv (hitems v hv))
        (fun v hv => hitems v hv v (self_mem_nodes v)) hclose (bounds_rparen rest)
      have hopen := hinner.single .lparen fun _ => rfl
      simpa [tokens, write] using hopen
  | dotted head tail ihhead ihtail =>
      obtain ⟨-, hhead, htail⟩ := forall_nodes_dotted.mp h
      intro more rest hmore _
      have hclose := splits_rparen hmore
      have hlast := splits_space (ihtail htail _ _ hclose (bounds_rparen rest))
        (head?_write_not_blank (htail tail (self_mem_nodes tail)) _)
      have hdot := splits_space (hlast.single .dot fun _ => rfl)
        (by simp [Token.isBlank])
      have hinner := splits_writeAll (fun v hv => ihhead v hv (hhead v hv))
        (fun v hv => hhead v hv v (self_mem_nodes v)) hdot (bounds_space _)
      have hopen := hinner.single .lparen fun _ => rfl
      simpa [tokens, write] using hopen
  | number n =>
      cases n with
      | ofNat n =>
          refine prints_of_spelled rfl (by simp) ?_
          simpa [chars, write, Decimal.chars] using spelled_toDigits n
      | negSucc n =>
          refine prints_of_spelled rfl (by simp) ?_
          simpa [chars, write, Decimal.text] using Token.Spelled.symbol (isSymbol_negSucc n)
  | string contents =>
      have hcontents : '"' ∉ contents.toList ∧ '\\' ∉ contents.toList :=
        h (string contents) (by simp)
      refine prints_of_spelled rfl (by simp) ?_
      have hspelled := Token.Spelled.string (escaped_self hcontents.1 hcontents.2)
      simpa [chars, write] using hspelled
  | bool b =>
      refine prints_of_spelled rfl (by simp) ?_
      have hname : Text.isSymbol (boolText b).toList = true := by cases b <;> decide +kernel
      simpa [chars, write] using Token.Spelled.symbol hname

end MiniLisp.Value
