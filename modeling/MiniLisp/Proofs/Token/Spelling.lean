import Mathlib.Algebra.Ring.Nat
import MiniLisp.Proofs.Text.Escape
import MiniLisp.Proofs.Text.Run
import MiniLisp.Token.Scan

/-!
The lexical grammar. Every token has the texts that spell it, and a source text is divided into
such texts without a gap, each of them as long as it can be. The scanner finds exactly these
divisions: it fails only where there is none, and there is never more than one.
-/

namespace MiniLisp

/-- The number that digits spell, each counted with the power of ten for its place. -/
def Decimal.positional : List Char → Nat
  | [] => 0
  | c :: cs => (c.toNat - '0'.toNat) * 10 ^ cs.length + positional cs

theorem Decimal.value_eq_positional (digits : List Char) : value digits = positional digits := by
  induction digits with
  | nil => rfl
  | cons c cs ih =>
      have hstep := @Nat.ofDigitChars_eq_ofDigitChars_zero cs (c.toNat - '0'.toNat)
      simp only [value, positional] at ih ⊢
      rw [Nat.ofDigitChars_cons, Nat.mul_zero, Nat.zero_add, hstep, ih, Nat.mul_comm]

theorem Decimal.ofDigits?_eq_positional {digits : List Char} (hne : digits ≠ [])
    (hdigits : ∀ c ∈ digits, c.isDigit = true) :
    ofDigits? digits = some (positional digits : Int) := by
  rw [ofDigits?, if_pos ⟨hne, List.all_eq_true.mpr hdigits⟩, value_eq_positional]

theorem Decimal.positional_toDigits (n : Nat) : positional (Nat.toDigits 10 n) = n := by
  rw [← value_eq_positional, value_toDigits]

theorem Decimal.isDigit_of_mem_toDigits {n : Nat} {c : Char} (h : c ∈ Nat.toDigits 10 n) :
    c.isDigit = true :=
  Nat.isDigit_of_mem_toDigits (by decide) (by decide) h

namespace Text

theorem le_toNat_of_isLetter {c : Char} (h : isLetter c = true) : 0x41 ≤ c.toNat := by
  have hall : ∀ range ∈ letterRanges, 0x41 ≤ range.1 := by decide +kernel
  obtain ⟨range, hrange, hle, -⟩ := inRanges_iff.mp h
  exact Nat.le_trans (hall range hrange) hle

theorem isSymbolStart_of_isDigit {c : Char} (h : c.isDigit = true) : isSymbolStart c = false := by
  have hmarks : symbolMarks.all (fun mark => !mark.isDigit) = true := by decide
  have hletter : isLetter c = false := by
    rw [Bool.eq_false_iff]
    intro hletter
    have hle := le_toNat_of_isLetter hletter
    simp only [Char.isDigit, Bool.and_eq_true, decide_eq_true_eq] at h
    have hnine : c.toNat ≤ 57 := h.2
    omega
  have hmark : c ∉ symbolMarks := by
    intro hmark
    simpa [h] using List.all_eq_true.mp hmarks c hmark
  simp [isSymbolStart, hletter, hmark]

theorem isSymbolPart_of_mem {name : List Char} {c : Char} (h : isSymbol name = true)
    (hc : c ∈ name) : isSymbolPart c = true := by
  cases name with
  | nil => cases hc
  | cons d name =>
      simp only [isSymbol, Bool.and_eq_true, List.all_eq_true] at h
      rcases List.mem_cons.mp hc with rfl | hc
      · simp [isSymbolPart, h.1]
      · exact h.2 c hc

/-- The characters with a meaning of their own between tokens or inside literals. -/
def delimiters : List Char :=
  ['(', ')', '\'', '.', '"', '\\', ' ', '\t', '\r', '\n']

theorem isSymbolPart_delimiter {c : Char} (h : c ∈ delimiters) : isSymbolPart c = false := by
  have hall : delimiters.all (fun c => !isSymbolPart c) = true := by decide +kernel
  simpa using List.all_eq_true.mp hall c h

theorem isSymbolStart_delimiter {c : Char} (h : c ∈ delimiters) : isSymbolStart c = false := by
  have hpart := isSymbolPart_delimiter h
  simp only [isSymbolPart, Bool.or_eq_false_iff] at hpart
  exact hpart.2

end Text

theorem Token.mem_delimiters_of_isBlank {c : Char} (h : isBlank c = true) :
    c ∈ Text.delimiters := by
  simp only [isBlank, Bool.or_eq_true, beq_iff_eq] at h
  rcases h with ((rfl | rfl) | rfl) | rfl <;> decide

theorem Token.isBlank_of_isSymbolPart {c : Char} (h : Text.isSymbolPart c = true) :
    isBlank c = false := by
  rw [Bool.eq_false_iff]
  intro hblank
  rw [Text.isSymbolPart_delimiter (mem_delimiters_of_isBlank hblank)] at h
  cases h

namespace Token

inductive Spelled : Token → List Char → Prop where
  | lparen : Spelled .lparen ['(']
  | rparen : Spelled .rparen [')']
  | quote : Spelled .quote ['\'']
  | dot : Spelled .dot ['.']
  | number {digits : List Char} :
      digits ≠ [] → (∀ c ∈ digits, c.isDigit = true) →
        Spelled (.number (Decimal.positional digits)) digits
  | string {contents body : List Char} :
      Text.Escaped contents body →
        Spelled (.string (String.ofList contents)) ('"' :: (body ++ ['"']))
  | symbol {name : List Char} :
      Text.isSymbol name = true → Spelled (.symbol (String.ofList name)) name
  | blank {run : List Char} :
      run ≠ [] → (∀ c ∈ run, isBlank c = true) → Spelled .blank run

theorem Spelled.blank_inv {run : List Char} (h : Spelled .blank run) :
    run ≠ [] ∧ ∀ c ∈ run, isBlank c = true := by
  cases h with
  | blank hne hblanks => exact ⟨hne, hblanks⟩

def goesOn : Token → Char → Bool
  | .number _, c => c.isDigit
  | .symbol _, c => Text.isSymbolPart c
  | .blank, c => isBlank c
  | _, _ => false

/-- The text of a token is as long as it can be in front of `rest`. -/
def StopsAt (token : Token) (rest : List Char) : Prop :=
  ∀ c ∈ rest.head?, token.goesOn c = false

theorem stopsAt_of_delimiter {token : Token} {rest : List Char} (htoken : token ≠ .blank)
    (hrest : ∀ c ∈ rest.head?, c ∈ Text.delimiters) : token.StopsAt rest := by
  intro c hc
  have hpart := Text.isSymbolPart_delimiter (hrest c hc)
  cases token with
  | number n =>
      simp only [Text.isSymbolPart, Bool.or_eq_false_iff] at hpart
      exact hpart.1
  | symbol name => exact hpart
  | blank => exact absurd rfl htoken
  | lparen => rfl
  | rparen => rfl
  | quote => rfl
  | dot => rfl
  | string contents => rfl

theorem opening_of_not_mem {c : Char} (h : c ∉ Text.delimiters) :
    opening c = if c.isDigit then .number else if Text.isSymbolStart c then .symbol
      else .invalid := by
  simp only [Text.delimiters, List.mem_cons, List.not_mem_nil, or_false, not_or] at h
  simp [opening, isBlank, h]

theorem opening_of_isDigit {c : Char} (h : c.isDigit = true) : opening c = .number := by
  have hmem : c ∉ Text.delimiters := by
    intro hmem
    have hall : Text.delimiters.all (fun c => !c.isDigit) = true := by decide
    simpa [h] using List.all_eq_true.mp hall c hmem
  simp [opening_of_not_mem hmem, h]

theorem opening_of_isSymbolStart {c : Char} (h : Text.isSymbolStart c = true) :
    opening c = .symbol := by
  have hmem : c ∉ Text.delimiters := by
    intro hmem
    rw [Text.isSymbolStart_delimiter hmem] at h
    cases h
  have hdigit : c.isDigit = false := by
    rw [Bool.eq_false_iff]
    intro hdigit
    rw [Text.isSymbolStart_of_isDigit hdigit] at h
    cases h
  simp [opening_of_not_mem hmem, hdigit, h]

theorem opening_of_isBlank {c : Char} (h : isBlank c = true) : opening c = .blank := by
  simp only [isBlank, Bool.or_eq_true, beq_iff_eq] at h
  rcases h with ((rfl | rfl) | rfl) | rfl <;> decide

theorem opening_eq_single {c : Char} {token : Token} (h : opening c = .single token) :
    token.Spelled [c] ∧ ∀ d, token.goesOn d = false := by
  unfold opening at h
  split at h
  · next hc => cases h; exact ⟨hc ▸ .lparen, fun _ => rfl⟩
  split at h
  · next hc => cases h; exact ⟨hc ▸ .rparen, fun _ => rfl⟩
  split at h
  · next hc => cases h; exact ⟨hc ▸ .quote, fun _ => rfl⟩
  split at h
  · next hc => cases h; exact ⟨hc ▸ .dot, fun _ => rfl⟩
  -- No other character is a token by itself.
  grind

theorem eq_of_opening_eq_string {c : Char} (h : opening c = .string) : c = '"' := by
  grind [opening]

theorem isDigit_of_opening_eq_number {c : Char} (h : opening c = .number) : c.isDigit = true := by
  grind [opening]

theorem isBlank_of_opening_eq_blank {c : Char} (h : opening c = .blank) : isBlank c = true := by
  grind [opening]

theorem isSymbolStart_of_opening_eq_symbol {c : Char} (h : opening c = .symbol) :
    Text.isSymbolStart c = true := by
  grind [opening]

theorem scanRun_append {part : Char → Bool} {more rest : List Char}
    (hmore : ∀ c ∈ more, part c = true) (hrest : ∀ c ∈ rest.head?, part c = false)
    (make : List Char → Token) (c : Char) :
    scanRun part make c (more ++ rest) = ⟨make (c :: more), more, rest⟩ := by
  have hrun : Text.Run part more rest := ⟨hmore, hrest⟩
  simp only [scanRun, hrun.takeWhile_append, hrun.dropWhile_append]

theorem head?_rest_scanRun (part : Char → Bool) (make : List Char → Token) (c : Char)
    (rest : List Char) : ∀ d ∈ (scanRun part make c rest).rest.head?, part d = false :=
  (Text.Run.of_takeWhile part rest).stops

theorem mem_more_scanRun (part : Char → Bool) (make : List Char → Token) (c : Char)
    (rest : List Char) : ∀ d ∈ (scanRun part make c rest).more, part d = true :=
  (Text.Run.of_takeWhile part rest).inside

theorem scanNumber_append {c : Char} {more rest : List Char}
    (hdigits : ∀ d ∈ c :: more, d.isDigit = true) (hrest : ∀ d ∈ rest.head?, d.isDigit = false) :
    scanNumber c (more ++ rest) = .ok ⟨.number (Decimal.positional (c :: more)), more, rest⟩ := by
  have hrun : Text.Run Char.isDigit more rest := ⟨fun d hd => hdigits d (.tail c hd), hrest⟩
  have hread := Decimal.ofDigits?_eq_positional (List.cons_ne_nil c more) hdigits
  simp only [scanNumber, hrun.takeWhile_append, hrun.dropWhile_append, hread]

theorem scanNumber_of_isDigit {c : Char} (h : c.isDigit = true) (rest : List Char) :
    scanNumber c rest = .ok ⟨.number (Decimal.positional (c :: rest.takeWhile Char.isDigit)),
      rest.takeWhile Char.isDigit, rest.dropWhile Char.isDigit⟩ := by
  have hrun := Text.Run.of_takeWhile Char.isDigit rest
  have hscan := scanNumber_append (List.forall_mem_cons.mpr ⟨h, hrun.inside⟩) hrun.stops
  rwa [List.takeWhile_append_dropWhile] at hscan

/-- What the scanner takes for a token spells it and could not have been longer. -/
theorem spelled_of_scan {c : Char} {rest : List Char} {s : Scanned} (h : scan c rest = .ok s) :
    s.token.Spelled (c :: s.more) ∧ s.token.StopsAt s.rest := by
  unfold scan at h
  split at h
  case h_1 token hsingle =>
      cases h
      obtain ⟨hspelled, hstop⟩ := opening_eq_single hsingle
      exact ⟨hspelled, fun d _ => hstop d⟩
  case h_2 hstring =>
      obtain rfl := eq_of_opening_eq_string hstring
      unfold scanString at h
      split at h
      · next hread =>
          cases h
          obtain ⟨body, rfl, hbody⟩ := Text.Literal.escaped_of_read hread
          exact ⟨.string hbody, fun _ _ => rfl⟩
      · cases h
      · cases h
  case h_3 hnumber =>
      have hopening := isDigit_of_opening_eq_number hnumber
      have hrun := Text.Run.of_takeWhile Char.isDigit rest
      rw [scanNumber_of_isDigit hopening] at h
      cases h
      refine ⟨.number (List.cons_ne_nil c _) ?_, hrun.stops⟩
      exact List.forall_mem_cons.mpr ⟨hopening, hrun.inside⟩
  case h_4 hblank =>
      cases h
      have hopening := isBlank_of_opening_eq_blank hblank
      have hmore := mem_more_scanRun isBlank (fun _ => .blank) c rest
      refine ⟨.blank (by simp) ?_, head?_rest_scanRun isBlank _ c rest⟩
      simpa [scanRun] using ⟨hopening, hmore⟩
  case h_5 hsymbol =>
      cases h
      have hopening := isSymbolStart_of_opening_eq_symbol hsymbol
      refine ⟨.symbol ?_, head?_rest_scanRun Text.isSymbolPart _ c rest⟩
      have hall := @List.all_takeWhile _ Text.isSymbolPart rest
      simp [Text.isSymbol, hopening, hall]
  case h_6 => cases h

/-- A text that spells a token and cannot be longer is taken for it. -/
theorem scan_of_spelled {token : Token} {lexeme rest : List Char} (h : token.Spelled lexeme)
    (hstop : token.StopsAt rest) :
    ∃ c more, lexeme = c :: more ∧ scan c (more ++ rest) = .ok ⟨token, more, rest⟩ := by
  cases h with
  | lparen => exact ⟨'(', [], rfl, rfl⟩
  | rparen => exact ⟨')', [], rfl, rfl⟩
  | quote => exact ⟨'\'', [], rfl, rfl⟩
  | dot => exact ⟨'.', [], rfl, rfl⟩
  | number hne hdigits =>
      obtain ⟨c, more, rfl⟩ := List.exists_cons_of_ne_nil hne
      refine ⟨c, more, rfl, ?_⟩
      simp only [scan, opening_of_isDigit (hdigits c List.mem_cons_self)]
      exact scanNumber_append hdigits hstop
  | @string contents body hbody =>
      refine ⟨'"', body ++ ['"'], rfl, ?_⟩
      have hread := Text.Literal.read_of_escaped hbody rest
      simp [scan, opening, scanString, hread]
  | symbol hname =>
      cases lexeme with
      | nil => cases hname
      | cons c more =>
          simp only [Text.isSymbol, Bool.and_eq_true, List.all_eq_true] at hname
          refine ⟨c, more, rfl, ?_⟩
          simp only [scan, opening_of_isSymbolStart hname.1]
          rw [scanRun_append hname.2 hstop]
  | blank hne hblanks =>
      obtain ⟨c, more, rfl⟩ := List.exists_cons_of_ne_nil hne
      have hmore : ∀ d ∈ more, isBlank d = true := fun d hd =>
        hblanks d (List.mem_cons_of_mem c hd)
      refine ⟨c, more, rfl, ?_⟩
      simp only [scan, opening_of_isBlank (hblanks c List.mem_cons_self)]
      rw [scanRun_append hmore hstop]

end Token

/-- `Splits tokens cs` says that the characters `cs` are the texts of the tokens in order, with
nothing between them and none of them cut short. -/
inductive Splits : List Token → List Char → Prop where
  | nil : Splits [] []
  | cons {token : Token} {tokens : List Token} {lexeme rest : List Char} :
      token.Spelled lexeme → token.StopsAt rest → Splits tokens rest →
        Splits (token :: tokens) (lexeme ++ rest)

theorem Splits.exists_spelled {tokens : List Token} {cs : List Char} (h : Splits tokens cs) :
    ∀ token ∈ tokens, ∃ lexeme, token.Spelled lexeme := by
  induction h with
  | nil => simp
  | cons hspelled _ _ ih => exact List.forall_mem_cons.mpr ⟨⟨_, hspelled⟩, ih⟩

/-- A token of one character never merges with what follows it. -/
theorem Splits.single {token : Token} {tokens : List Token} {c : Char} {rest : List Char}
    (h : token.Spelled [c]) (hstop : ∀ d, token.goesOn d = false) (hrest : Splits tokens rest) :
    Splits (token :: tokens) (c :: rest) :=
  .cons h (fun d _ => hstop d) hrest

theorem Splits.cons_inv {token : Token} {tokens : List Token} {cs : List Char}
    (h : Splits (token :: tokens) cs) : ∃ lexeme rest, cs = lexeme ++ rest ∧
      token.Spelled lexeme ∧ token.StopsAt rest ∧ Splits tokens rest := by
  cases h with
  | @cons _ _ lexeme rest hspelled hstop hrest => exact ⟨lexeme, rest, rfl, hspelled, hstop, hrest⟩

namespace Lexemes

theorem scan_cons {c : Char} {rest : List Char} {s : Token.Scanned}
    (h : Token.scan c rest = .ok s) (p : Position) :
    scan p (c :: rest) = (scan (p.after (c :: s.more)) s.rest).map fun more =>
      ⟨⟨s.token, p⟩ :: more.items, more.stop⟩ := by
  rw [scan]
  split
  · next fault hfault => rw [h] at hfault; cases hfault
  · next s' hs' =>
      rw [h] at hs'
      cases hs'
      cases scan (p.after (c :: s.more)) s.rest <;> rfl

theorem splits_of_scan {p : Position} {source : List Char} {lexemes : Lexemes}
    (h : scan p source = .ok lexemes) : Splits (lexemes.items.map Lexeme.token) source := by
  fun_induction scan p source generalizing lexemes with
  | case1 p =>
      cases h
      exact .nil
  | case2 p c rest fault hfault => cases h
  | case3 p c rest s hs e he ih => cases h
  | case4 p c rest s hs more hmore ih =>
      cases h
      obtain ⟨hspelled, hstop⟩ := Token.spelled_of_scan hs
      have hsplits := Splits.cons hspelled hstop (ih hmore)
      rw [List.cons_append, Token.append_of_scan hs] at hsplits
      exact hsplits

theorem scan_of_splits {tokens : List Token} {source : List Char} (h : Splits tokens source)
    (p : Position) :
    ∃ lexemes, scan p source = .ok lexemes ∧ lexemes.items.map Lexeme.token = tokens := by
  induction h generalizing p with
  | nil => exact ⟨⟨[], p⟩, by rw [scan], rfl⟩
  | @cons token tokens lexeme rest hspelled hstop _ ih =>
      obtain ⟨c, more, rfl, hscan⟩ := Token.scan_of_spelled hspelled hstop
      obtain ⟨lexemes, hlexemes, htokens⟩ := ih (p.after (c :: more))
      refine ⟨⟨⟨token, p⟩ :: lexemes.items, lexemes.stop⟩, ?_, by simp [htokens]⟩
      rw [List.cons_append, scan_cons hscan, hlexemes]
      rfl

end Lexemes

theorem Splits.unique {tokens tokens' : List Token} {cs : List Char} (h : Splits tokens cs)
    (h' : Splits tokens' cs) : tokens = tokens' := by
  obtain ⟨lexemes, hscan, rfl⟩ := Lexemes.scan_of_splits h .start
  obtain ⟨lexemes', hscan', rfl⟩ := Lexemes.scan_of_splits h' .start
  rw [hscan] at hscan'
  cases hscan'
  rfl

/-- A source text has certain tokens exactly when it is the texts of these tokens in order, each as
long as it can be. -/
theorem tokenize_eq_ok_iff_splits (source : String) (tokens : List Token) :
    (∃ lexemes, tokenize source = .ok lexemes ∧ lexemes.items.map Lexeme.token = tokens) ↔
      Splits tokens source.toList := by
  constructor
  · rintro ⟨lexemes, hscan, rfl⟩
    exact Lexemes.splits_of_scan hscan
  · intro h
    exact Lexemes.scan_of_splits h .start

end MiniLisp
