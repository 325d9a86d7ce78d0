import Mathlib.Logic.ExistsUnique
import MiniLisp.Proofs.Token.Faults

/-!
The verdict on a text. Either all of it splits into tokens, or there is one place where it is stuck,
with one fault there, and never both. String literals are scanned in a single pass, but the work can
also be divided: a pattern tells where a literal ends, what lies between the quotes is decoded
afterwards, and only where the pattern does not match does a second look at the text find the
reason. The parts agree with the whole. Nothing that the pattern matches is left undecoded, and the
second look never comes upon a closing quote.
-/

namespace MiniLisp

/-! ### One verdict for each text -/

/-- What becomes of a text: all its tokens, or the tokens in front of the place where it is stuck,
the text on either side of that place and the fault there. -/
inductive Verdict where
  | split (tokens : List Token)
  | stuck (tokens : List Token) (front rest : List Char) (fault : Token.Fault)

def Verdict.Fits (source : List Char) : Verdict → Prop
  | split tokens => Splits tokens source
  | stuck tokens front rest fault =>
      source = front ++ rest ∧ SplitsBefore rest tokens front ∧ Token.Faulty rest fault

namespace Token

variable {token token' : Token} {lexeme lexeme' rest rest' : List Char} {fault fault' : Fault}

theorem Spelled.unique (h : token.Spelled lexeme) (hstop : token.StopsAt rest)
    (h' : token'.Spelled lexeme') (hstop' : token'.StopsAt rest')
    (heq : lexeme ++ rest = lexeme' ++ rest') :
    token = token' ∧ lexeme = lexeme' ∧ rest = rest' := by
  obtain ⟨c, more, rfl, hscan⟩ := scan_of_spelled h hstop
  obtain ⟨c', more', rfl, hscan'⟩ := scan_of_spelled h' hstop'
  obtain ⟨rfl, hmore⟩ : c = c' ∧ more ++ rest = more' ++ rest' := by simpa using heq
  rw [hmore, hscan'] at hscan
  cases hscan
  exact ⟨rfl, rfl, rfl⟩

theorem Faulty.ne_append (h : Faulty rest fault) (hspelled : token.Spelled lexeme)
    (hstop : token.StopsAt rest') : rest ≠ lexeme ++ rest' := by
  rintro rfl
  obtain ⟨c, more, rfl, hscan⟩ := scan_of_spelled hspelled hstop
  rw [List.cons_append, ← scan_eq_error_iff, hscan] at h
  cases h

theorem Faulty.unique (h : Faulty rest fault) (h' : Faulty rest fault') : fault = fault' := by
  cases rest with
  | nil => cases h
  | cons c rest =>
      rw [← scan_eq_error_iff] at h h'
      rw [h] at h'
      exact Except.error.inj h'

end Token

theorem SplitsBefore.unique_of_faulty {rest rest' front front' : List Char}
    {tokens tokens' : List Token} {fault fault' : Token.Fault} (h : SplitsBefore rest tokens front)
    (hfault : Token.Faulty rest fault) (h' : SplitsBefore rest' tokens' front')
    (hfault' : Token.Faulty rest' fault') (heq : front ++ rest = front' ++ rest') :
    tokens = tokens' ∧ front = front' ∧ rest = rest' ∧ fault = fault' := by
  induction h generalizing tokens' front' with
  | nil =>
      cases h' with
      | nil =>
          obtain rfl : rest = rest' := heq
          exact ⟨rfl, rfl, rfl, hfault.unique hfault'⟩
      | cons hspelled' hstop' _ =>
          rw [List.nil_append, List.append_assoc] at heq
          exact absurd heq (hfault.ne_append hspelled' hstop')
  | cons hspelled hstop _ ih =>
      rw [List.append_assoc] at heq
      cases h' with
      | nil => exact absurd heq.symm (hfault'.ne_append hspelled hstop)
      | cons hspelled' hstop' hmore' =>
          rw [List.append_assoc] at heq
          obtain ⟨rfl, rfl, hrest⟩ := hspelled.unique hstop hspelled' hstop' heq
          obtain ⟨rfl, rfl, hsame⟩ := ih hmore' hrest
          exact ⟨rfl, rfl, hsame⟩

theorem Splits.not_faulty {tokens tokens' : List Token} {front rest : List Char}
    {fault : Token.Fault} (h : Splits tokens' (front ++ rest))
    (hfront : SplitsBefore rest tokens front) : ¬ Token.Faulty rest fault := by
  intro hfault
  obtain ⟨lexemes, hscan, -⟩ := Lexemes.scan_of_splits h .start
  rw [Lexemes.scan_eq_error_iff.mpr ⟨tokens, front, rest, fault, rfl, hfront, hfault, rfl⟩] at hscan
  cases hscan

theorem Verdict.existsUnique_fits (source : List Char) :
    ∃! verdict : Verdict, verdict.Fits source := by
  cases hscan : Lexemes.scan .start source with
  | ok lexemes =>
      have hsplits := Lexemes.splits_of_scan hscan
      refine ⟨.split (lexemes.items.map Lexeme.token), hsplits, ?_⟩
      rintro (tokens | ⟨tokens, front, rest, fault⟩) hfits
      · exact congrArg split (Splits.unique hfits hsplits)
      · obtain ⟨rfl, hfront, hfault⟩ := hfits
        exact absurd hfault (hsplits.not_faulty hfront)
  | error e =>
      obtain ⟨tokens, front, rest, fault, rfl, hfront, hfault, -⟩ :=
        Lexemes.scan_eq_error_iff.mp hscan
      refine ⟨.stuck tokens front rest fault, ⟨rfl, hfront, hfault⟩, ?_⟩
      rintro (tokens' | ⟨tokens', front', rest', fault'⟩) hfits
      · exact absurd hfault (Splits.not_faulty hfits hfront)
      · obtain ⟨hsource, hfront', hfault'⟩ := hfits
        obtain ⟨rfl, rfl, rfl, rfl⟩ := hfront.unique_of_faulty hfault hfront' hfault' hsource
        rfl

/-! ### Decoding and diagnosing apart -/

theorem Token.Spelled.ofDigits?_eq {n : Int} {lexeme : List Char}
    (h : (Token.number n).Spelled lexeme) : Decimal.ofDigits? lexeme = some n := by
  cases h with
  | number hne hdigits => exact Decimal.ofDigits?_eq_positional hne hdigits

namespace Text

/-- The character for which an escape stands, when its backslash is known to begin one. -/
def decodeEscape : Char → Char
  | 'n' => '\n'
  | 'r' => '\r'
  | 't' => '\t'
  | e => e

/-- The contents of a literal from the text between its quotes. A backslash takes the next character
with it, whichever that is, so only a backslash at the end cannot be decoded. -/
def decodeBody? : List Char → Option (List Char)
  | [] => some []
  | ['\\'] => none
  | '\\' :: e :: rest => (decodeBody? rest).map (decodeEscape e :: ·)
  | c :: rest => (decodeBody? rest).map (c :: ·)

def decode? : List Char → Option (List Char)
  | '"' :: more => if more.getLast? = some '"' then decodeBody? more.dropLast else none
  | _ => none

theorem decodeEscape_of_mem {e c : Char} (h : (e, c) ∈ escapes) : decodeEscape e = c := by
  simp only [escapes, List.mem_cons, Prod.mk.injEq, List.not_mem_nil, or_false] at h
  rcases h with ⟨rfl, rfl⟩ | ⟨rfl, rfl⟩ | ⟨rfl, rfl⟩ | ⟨rfl, rfl⟩ | ⟨rfl, rfl⟩ | ⟨rfl, rfl⟩ <;> rfl

theorem Escaped.decodeBody?_eq {contents body : List Char} (h : Escaped contents body) :
    decodeBody? body = some contents := by
  induction h with
  | nil => rfl
  | @raw c contents body _ hbackslash _ ih =>
      have hraw : decodeBody? (c :: body) = (decodeBody? body).map (c :: ·) := by
        rw [decodeBody?]
        · rintro rfl
          exact absurd rfl hbackslash
        · rintro e more rfl
          exact absurd rfl hbackslash
      rw [hraw, ih]
      rfl
  | escape he _ ih =>
      rw [decodeBody?, ih, decodeEscape_of_mem he]
      rfl

end Text

theorem Token.Spelled.decode?_eq {contents : String} {lexeme : List Char}
    (h : (Token.string contents).Spelled lexeme) : Text.decode? lexeme = some contents.toList := by
  cases h with
  | string hbody => simp [Text.decode?, hbody.decodeBody?_eq]

namespace Text

def knownEscapes : List Char :=
  ['\\', '"', 'n', 'r', 't', ' ']

/-- What a search for the end of a literal comes upon first. -/
inductive Finding where
  | quote
  | unknownEscape (e : Char) (p : Position)
  | nothing

/-- Searches a text that begins at `p`, just behind an opening quote, for the end of the literal. -/
def search (p : Position) : List Char → Finding
  | [] => .nothing
  | '"' :: _ => .quote
  | ['\\'] => .nothing
  | '\\' :: e :: rest =>
      if e ∈ knownEscapes then search ⟨p.line, p.column + 2⟩ rest else .unknownEscape e p
  | c :: rest => search (p.next c) rest

def Finding.error (start : Position) : Finding → ParseError
  | quote => ⟨.unterminatedString, start⟩
  | unknownEscape e p => ⟨.invalidEscape e, p⟩
  | nothing => ⟨.unterminatedString, start⟩

theorem mem_knownEscapes_iff {e : Char} : e ∈ knownEscapes ↔ ∃ c, (e, c) ∈ escapes := by
  simp [knownEscapes, escapes, exists_or]

/-- Escapes hold no line feed, so an escape is two columns wide. -/
theorem next_next_of_mem {e : Char} (h : e ∈ knownEscapes) (p : Position) :
    (p.next '\\').next e = ⟨p.line, p.column + 2⟩ := by
  have hline : e ≠ '\n' := by
    rintro rfl
    simp [knownEscapes] at h
  simp [Position.next, hline]

theorem Escaped.search_append {contents body : List Char} (h : Escaped contents body)
    (p : Position) (rest : List Char) : search p (body ++ rest) = search (p.after body) rest := by
  induction h generalizing p with
  | nil => rfl
  | @raw c contents body hquote hbackslash _ ih =>
      rw [List.cons_append, search, ih, Position.after_cons]
      · exact hquote
      · rintro rfl
        exact absurd rfl hbackslash
      · rintro e more rfl
        exact absurd rfl hbackslash
  | @escape e c contents body he _ ih =>
      have hknown : e ∈ knownEscapes := mem_knownEscapes_iff.mpr ⟨c, he⟩
      rw [List.cons_append, List.cons_append, search, if_pos hknown, ih, Position.after_cons,
        Position.after_cons, next_next_of_mem hknown]

end Text

/-- Where a literal cannot be read the search finds the reason, which is never a closing quote. -/
theorem Token.Faulty.search_eq {body : List Char} {fault : Fault}
    (h : Faulty ('"' :: body) fault) (p : Position) :
    Text.search (p.next '"') body ≠ .quote ∧
      (Text.search (p.next '"') body).error p = ⟨fault.cause, p.after fault.before⟩ := by
  cases h with
  | character _ hnone => exact absurd (.string .nil) (hnone (.string (String.ofList [])) ['"'])
  | @escape contents body e rest hbody he =>
      have hunknown : e ∉ Text.knownEscapes := by
        rw [Text.mem_knownEscapes_iff]
        rintro ⟨c, hc⟩
        exact he c hc
      rw [hbody.search_append, Text.search, if_neg hunknown]
      exact ⟨nofun, rfl⟩
  | unclosed hbody =>
      rw [← List.append_nil body, hbody.search_append, Text.search]
      exact ⟨nofun, rfl⟩
  | cutEscape hbody =>
      rw [hbody.search_append, Text.search]
      exact ⟨nofun, rfl⟩

/-- Every text has exactly one verdict, which is what tokenizing it comes to: it splits into tokens
as a whole, or it is stuck at a character that begins no token, at a literal with an unknown escape
or at a literal that does not end. What lies in front of the place where it is stuck splits into the
tokens found so far. Decoding never fails on the text of a literal or of a number, and a second look
at a literal that cannot be read finds the error that is reported and no closing quote. -/
theorem tokenize_agrees_with_verdict (source : String) :
    (∃! verdict : Verdict, verdict.Fits source.toList) ∧
    ((∃ lexemes, tokenize source = .ok lexemes) ↔
      ∃ tokens, (Verdict.split tokens).Fits source.toList) ∧
    (∀ e, tokenize source = .error e ↔ ∃ tokens front rest fault,
      (Verdict.stuck tokens front rest fault).Fits source.toList ∧
        e = ⟨fault.cause, Position.start.after (front ++ fault.before)⟩) ∧
    (∀ tokens front rest fault, (Verdict.stuck tokens front rest fault).Fits source.toList →
      (∃ lexemes, tokenize (String.ofList front) = .ok lexemes ∧
        lexemes.items.map Lexeme.token = tokens) ∧
      ∀ body p, rest = '"' :: body → p = Position.start.after front →
        Text.search (p.next '"') body ≠ .quote ∧
          tokenize source = .error ((Text.search (p.next '"') body).error p)) ∧
    (∀ contents lexeme, (Token.string contents).Spelled lexeme →
      Text.decode? lexeme = some contents.toList) ∧
    ∀ n lexeme, (Token.number n).Spelled lexeme → Decimal.ofDigits? lexeme = some n := by
  refine ⟨Verdict.existsUnique_fits source.toList, ?_, ?_, ?_, ?_, ?_⟩
  · constructor
    · rintro ⟨lexemes, hscan⟩
      exact ⟨_, Lexemes.splits_of_scan hscan⟩
    · rintro ⟨tokens, hsplits⟩
      obtain ⟨lexemes, hscan, -⟩ := Lexemes.scan_of_splits hsplits .start
      exact ⟨lexemes, hscan⟩
  · intro e
    constructor
    · intro herror
      obtain ⟨tokens, front, rest, fault, hsource, hfront, hfault, he⟩ :=
        Lexemes.scan_eq_error_iff.mp herror
      exact ⟨tokens, front, rest, fault, ⟨hsource, hfront, hfault⟩, he⟩
    · rintro ⟨tokens, front, rest, fault, ⟨hsource, hfront, hfault⟩, he⟩
      exact Lexemes.scan_eq_error_iff.mpr
        ⟨tokens, front, rest, fault, hsource, hfront, hfault, he⟩
  · rintro tokens front rest fault ⟨hsource, hfront, hfault⟩
    refine ⟨?_, ?_⟩
    · obtain ⟨lexemes, hscan, htokens⟩ := Lexemes.scan_of_splits hfront.splits .start
      exact ⟨lexemes, by rw [tokenize, String.toList_ofList, hscan], htokens⟩
    · rintro body p rfl rfl
      obtain ⟨hquote, herror⟩ := hfault.search_eq (Position.start.after front)
      refine ⟨hquote, ?_⟩
      rw [herror, ← Position.after_append]
      exact Lexemes.scan_eq_error_iff.mpr
        ⟨tokens, front, _, fault, hsource, hfront, hfault, rfl⟩
  · intro contents lexeme h
    exact h.decode?_eq
  · intro n lexeme h
    exact h.ofDigits?_eq

end MiniLisp
