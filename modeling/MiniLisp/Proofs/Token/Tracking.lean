import MiniLisp.Proofs.Token.Diagnosis
import MiniLisp.Proofs.Token.Positions

/-!
A second scanner, which knows where it is without stepping over every character. It keeps the number
of the current line and the byte at which the line starts, and looks for line feeds only in white
space and in string literals. Columns come from a cursor that counts the characters of a line from
the place it was asked about last. What is wrong with a literal is searched for from its opening
quote, with a count of its own.

None of these counts starts from scratch, but each of them comes to what counting the text in front
from scratch gives. So both scanners report the same places.
-/

namespace MiniLisp

/-! ### Bytes of a text -/

namespace Text

def width (text : List Char) : Nat :=
  (text.map Char.utf8Size).sum

@[simp] theorem width_nil : width [] = 0 := rfl

@[simp] theorem width_cons (c : Char) (text : List Char) :
    width (c :: text) = c.utf8Size + width text :=
  List.sum_cons

@[simp] theorem width_append (s t : List Char) : width (s ++ t) = width s + width t := by
  simp [width]

theorem width_toList (s : String) : width s.toList = s.utf8ByteSize := by
  rw [← String.size_toByteArray, ← String.utf8Encode_toList, List.utf8Encode,
    List.size_toByteArray, List.length_flatMap]
  simp [width]

/-- A text cut in two behind its first `n` bytes, unless that would cut a character. -/
def splitAtByte? (n : Nat) : List Char → Option (List Char × List Char)
  | [] => if n = 0 then some ([], []) else none
  | c :: text =>
      if n = 0 then some ([], c :: text)
      else if c.utf8Size ≤ n then (splitAtByte? (n - c.utf8Size) text).map (Prod.map (c :: ·) id)
      else none

theorem splitAtByte?_append (front rest : List Char) :
    splitAtByte? (width front) (front ++ rest) = some (front, rest) := by
  induction front with
  | nil => cases rest <;> rfl
  | cons c front ih =>
      have hpos := c.utf8Size_pos
      have hne : width (c :: front) ≠ 0 := by
        rw [width_cons]
        omega
      rw [List.cons_append, splitAtByte?, if_neg hne, width_cons, if_pos (Nat.le_add_right _ _),
        Nat.add_sub_cancel_left, ih]
      rfl

/-- Of the texts that another text begins with there is only one of each width. -/
theorem eq_of_width_eq {s t rest rest' : List Char} (h : s ++ rest = t ++ rest')
    (hwidth : width s = width t) : s = t := by
  have hsplit := splitAtByte?_append s rest
  rw [h, hwidth, splitAtByte?_append] at hsplit
  exact (congrArg Prod.fst (Option.some.inj hsplit)).symm

def slice? (source : String) (start stop : Nat) : Option (List Char) :=
  if start ≤ stop then do
    let (_, rest) ← splitAtByte? start source.toList
    let (part, _) ← splitAtByte? (stop - start) rest
    return part
  else none

theorem slice?_eq_some {source : String} {front part rest : List Char}
    (h : source.toList = front ++ (part ++ rest)) :
    slice? source (width front) (width (front ++ part)) = some part := by
  rw [slice?, width_append, if_pos (Nat.le_add_right _ _), h, splitAtByte?_append,
    Nat.add_sub_cancel_left]
  change (splitAtByte? (width part) (part ++ rest) >>= fun split => pure split.1) = _
  rw [splitAtByte?_append]
  rfl

/-! ### Lines of a text -/

/-- The bytes at which line feeds stand in a text that begins at the byte `i`. -/
def lineFeeds (i : Nat) : List Char → List Nat
  | [] => []
  | c :: text =>
      if c = '\n' then i :: lineFeeds (i + c.utf8Size) text else lineFeeds (i + c.utf8Size) text

theorem lineFeeds_eq_nil {text : List Char} (h : '\n' ∉ text) (i : Nat) :
    lineFeeds i text = [] := by
  induction text generalizing i with
  | nil => rfl
  | cons c text ih =>
      rw [List.mem_cons, not_or] at h
      rw [lineFeeds, if_neg (Ne.symm h.1), ih h.2]

/-- The lines of a text that have come to an end, with their line feeds. -/
def closedLines (text : List Char) : List Char :=
  (text.reverse.dropWhile (· != '\n')).reverse

def lastLine (text : List Char) : List Char :=
  (text.reverse.takeWhile (· != '\n')).reverse

theorem closedLines_append_lastLine (text : List Char) :
    closedLines text ++ lastLine text = text := by
  rw [closedLines, lastLine, ← List.reverse_append, List.takeWhile_append_dropWhile,
    List.reverse_reverse]

theorem closedLines_concat (text : List Char) (c : Char) :
    closedLines (text ++ [c]) = if c = '\n' then text ++ [c] else closedLines text := by
  by_cases hc : c = '\n'
  · simp [closedLines, hc]
  · simp [closedLines, hc]

theorem lastLine_append {text more : List Char}
    (h : closedLines (text ++ more) = closedLines text) :
    lastLine (text ++ more) = lastLine text ++ more := by
  apply List.append_cancel_left
  calc closedLines text ++ lastLine (text ++ more)
    _ = text ++ more := by rw [← h, closedLines_append_lastLine]
    _ = closedLines text ++ (lastLine text ++ more) := by
        rw [← List.append_assoc, closedLines_append_lastLine]

end Text

namespace Position

theorem recount_append (text more : List Char) :
    recount (text ++ more) = (recount text).after more := by
  rw [← after_start, after_append, after_start]

theorem column_recount (text : List Char) :
    (recount text).column = 1 + (Text.lastLine text).length := by
  rw [Text.lastLine, List.length_reverse]
  rfl

end Position

/-! ### The current line -/

/-- A line by its number and by the byte at which it starts. -/
structure Line where
  number : Nat
  start : Nat

namespace Line

/-- The line behind a text that begins at the byte `offset`. -/
def past (line : Line) (offset : Nat) (text : List Char) : Line :=
  (Text.lineFeeds 0 text).foldl (fun line i => ⟨line.number + 1, offset + i + 1⟩) line

/-- The line behind a text, counted from scratch. -/
def behind (text : List Char) : Line :=
  ⟨(Position.recount text).line, Text.width (Text.closedLines text)⟩

theorem behind_concat (text : List Char) (c : Char) :
    behind (text ++ [c]) =
      if c = '\n' then ⟨(behind text).number + 1, Text.width text + 1⟩ else behind text := by
  by_cases hc : c = '\n'
  · subst hc
    simp only [behind, Position.recount_concat, Text.closedLines_concat, Text.width_append, if_true]
    rfl
  · simp [behind, Position.next, Text.closedLines_concat, hc]

theorem foldl_lineFeeds (front text : List Char) {offset i : Nat}
    (h : offset + i = Text.width front) :
    (Text.lineFeeds i text).foldl (fun line i => ⟨line.number + 1, offset + i + 1⟩)
      (behind front) = behind (front ++ text) := by
  induction text generalizing front i with
  | nil => simp [Text.lineFeeds]
  | cons c text ih =>
      have hnext : offset + (i + c.utf8Size) = Text.width (front ++ [c]) := by
        simp [← h, Nat.add_assoc]
      have hstep := ih (front ++ [c]) hnext
      rw [behind_concat, List.append_assoc, List.singleton_append] at hstep
      by_cases hc : c = '\n'
      · rw [Text.lineFeeds, if_pos hc, List.foldl_cons, h]
        rwa [if_pos hc] at hstep
      · rw [Text.lineFeeds, if_neg hc]
        rwa [if_neg hc] at hstep

/-- Looking for line feeds in a text alone gives the line behind it. -/
theorem past_behind (front text : List Char) :
    (behind front).past (Text.width front) text = behind (front ++ text) :=
  foldl_lineFeeds front text (Nat.add_zero _)

theorem behind_append {text : List Char} (h : '\n' ∉ text) (front : List Char) :
    behind (front ++ text) = behind front := by
  rw [← past_behind, past, Text.lineFeeds_eq_nil h]
  rfl

end Line

/-! ### The current column -/

structure ColumnCursor where
  lineStart : Nat
  offset : Nat
  column : Nat

namespace ColumnCursor

/-- Moves to the byte `offset` of a line. Within a line the characters in between are counted, and
in another line all from its start. -/
def moveTo (cursor : ColumnCursor) (source : String) (line : Line) (offset : Nat) : ColumnCursor :=
  let cursor := if line.start = cursor.lineStart then cursor else ⟨line.start, line.start, 1⟩
  let skipped := Text.slice? source cursor.offset offset
  ⟨cursor.lineStart, offset, cursor.column + (skipped.map List.length).getD 0⟩

def behind (text : List Char) : ColumnCursor :=
  ⟨Text.width (Text.closedLines text), Text.width text, (Position.recount text).column⟩

/-- The count goes on from any place in front. -/
theorem moveTo_behind {source : String} {seen more rest : List Char}
    (h : source.toList = seen ++ (more ++ rest)) :
    (behind seen).moveTo source (.behind (seen ++ more)) (Text.width (seen ++ more)) =
      behind (seen ++ more) := by
  have hparts := Text.closedLines_append_lastLine (seen ++ more)
  by_cases hline : Text.closedLines (seen ++ more) = Text.closedLines seen
  · -- No line has ended since, so the count goes on.
    have hskipped := Text.slice?_eq_some h
    have hcolumn : (Position.recount (seen ++ more)).column =
        (Position.recount seen).column + more.length := by
      simp only [Position.column_recount, Text.lastLine_append hline, List.length_append]
      omega
    simp only [moveTo, behind, Line.behind, hline, if_true, hskipped, hcolumn]
    rfl
  · -- The cursor compares bytes only, but of the texts in front no two have the same width. So it
    -- is in another line and counts from the start of this one.
    have hwidth : Text.width (Text.closedLines (seen ++ more)) ≠
        Text.width (Text.closedLines seen) := by
      intro hwidth
      have hseen : Text.closedLines seen ++ (Text.lastLine seen ++ more) = seen ++ more := by
        rw [← List.append_assoc, Text.closedLines_append_lastLine]
      exact hline (Text.eq_of_width_eq (hparts.trans hseen.symm) hwidth)
    have hsource : source.toList =
        Text.closedLines (seen ++ more) ++ (Text.lastLine (seen ++ more) ++ rest) := by
      rw [← List.append_assoc, hparts, h, List.append_assoc]
    have hskipped := Text.slice?_eq_some hsource
    rw [hparts] at hskipped
    simp only [moveTo, behind, Line.behind, if_neg hwidth, hskipped, Position.column_recount]
    rfl

end ColumnCursor

/-! ### The scanner -/

/-- Whether the text of a token is searched for line feeds. -/
def Token.spansLines : Token → Bool
  | .string _ => true
  | .blank => true
  | _ => false

theorem Token.Spelled.not_mem_of_spansLines {token : Token} {text : List Char}
    (h : token.Spelled text) (hspans : token.spansLines = false) : '\n' ∉ text := by
  cases h with
  | lparen => decide
  | rparen => decide
  | quote => decide
  | dot => decide
  | number _ hdigits => exact fun hmem => absurd (hdigits '\n' hmem) (by decide)
  | string _ => cases hspans
  | symbol hname =>
      intro hmem
      have hpart := Text.isSymbolPart_of_mem hname hmem
      rw [Text.isSymbolPart_delimiter (by decide)] at hpart
      cases hpart
  | blank _ _ => cases hspans

/-- What is known in front of a token: the line, the cursor where it was moved last, and the byte at
which the token begins. -/
structure Tracker where
  line : Line
  cursor : ColumnCursor
  offset : Nat

namespace Tracker

def start : Tracker :=
  ⟨⟨1, 0⟩, ⟨0, 0, 1⟩, 0⟩

def position (t : Tracker) (source : String) : Position :=
  ⟨t.line.number, (t.cursor.moveTo source t.line t.offset).column⟩

/-- What is known behind a token. Its own place is that of the line in front of it, so the cursor
moves before the line changes. -/
def next (t : Tracker) (source : String) (token : Token) (text : List Char) : Tracker where
  line := if token.spansLines then t.line.past t.offset text else t.line
  cursor := t.cursor.moveTo source t.line t.offset
  offset := t.offset + Text.width text

def error (t : Tracker) (source : String) : ParseError :=
  let p := t.position source
  match Text.splitAtByte? t.offset source.toList with
  | some (_, '"' :: body) => (Text.search ⟨p.line, p.column + 1⟩ body).error p
  | some (_, c :: _) => ⟨.invalidCharacter (String.singleton c), p⟩
  | _ => ⟨.invalidCharacter "", p⟩

def scan (t : Tracker) (source : String) (rest : List Char) : Except ParseError Lexemes :=
  match rest with
  | [] => .ok ⟨[], { t with offset := source.utf8ByteSize }.position source⟩
  | c :: rest =>
      match _h : Token.scan c rest with
      | .error _ => .error (t.error source)
      | .ok s =>
          match (t.next source s.token (c :: s.more)).scan source s.rest with
          | .error e => .error e
          | .ok more => .ok ⟨⟨s.token, t.position source⟩ :: more.items, more.stop⟩
termination_by rest.length
decreasing_by exact Token.length_rest_lt_of_scan ‹_›

def tokenize (source : String) : Except ParseError Lexemes :=
  start.scan source source.toList

/-- `t.Behind front` says that all that is known is what counting from scratch gives behind the text
`front`, only that the cursor may have stayed further in front. -/
structure Behind (t : Tracker) (front : List Char) : Prop where
  line_eq : t.line = .behind front
  exists_seen : ∃ seen more, front = seen ++ more ∧ t.cursor = .behind seen
  offset_eq : t.offset = Text.width front

variable {t : Tracker} {source : String} {front rest : List Char}

theorem behind_start : start.Behind [] :=
  ⟨rfl, ⟨[], [], rfl, rfl⟩, rfl⟩

theorem Behind.moveTo_eq (h : t.Behind front) (hsource : source.toList = front ++ rest) :
    t.cursor.moveTo source t.line t.offset = .behind front := by
  obtain ⟨seen, more, rfl, hcursor⟩ := h.exists_seen
  rw [h.line_eq, h.offset_eq, hcursor]
  exact ColumnCursor.moveTo_behind (hsource.trans (List.append_assoc seen more rest))

theorem Behind.position_eq (h : t.Behind front) (hsource : source.toList = front ++ rest) :
    t.position source = .recount front := by
  rw [position, h.moveTo_eq hsource, h.line_eq]
  rfl

/-- One token further everything is known again. -/
theorem Behind.next {token : Token} {text : List Char} (h : t.Behind front)
    (hsource : source.toList = front ++ rest) (htext : token.Spelled text) :
    (t.next source token text).Behind (front ++ text) where
  line_eq := by
    cases hspans : token.spansLines with
    | true =>
        simp only [Tracker.next, hspans, if_true, h.line_eq, h.offset_eq]
        exact Line.past_behind front text
    | false =>
        rw [Line.behind_append (htext.not_mem_of_spansLines hspans), ← h.line_eq]
        simp [Tracker.next, hspans]
  exists_seen := ⟨front, text, rfl, h.moveTo_eq hsource⟩
  offset_eq := by
    rw [Text.width_append, ← h.offset_eq]
    rfl

theorem Behind.scanned {c : Char} {s : Token.Scanned} (h : t.Behind front)
    (hsource : source.toList = front ++ c :: rest) (hs : Token.scan c rest = .ok s) :
    (t.next source s.token (c :: s.more)).Behind (front ++ c :: s.more) ∧
      source.toList = front ++ c :: s.more ++ s.rest := by
  refine ⟨h.next hsource (Token.spelled_of_scan hs).1, ?_⟩
  rw [hsource, ← Token.append_of_scan hs, List.append_assoc, List.cons_append]

theorem Behind.error_eq {c : Char} {fault : Token.Fault} (h : t.Behind front)
    (hsource : source.toList = front ++ c :: rest) (hfault : Token.Faulty (c :: rest) fault) :
    t.error source = ⟨fault.cause, (Position.recount front).after fault.before⟩ := by
  have hsplit : Text.splitAtByte? t.offset source.toList = some (front, c :: rest) := by
    rw [h.offset_eq, hsource, Text.splitAtByte?_append]
  simp only [error, hsplit, h.position_eq hsource]
  by_cases hquote : c = '"'
  · subst hquote
    exact (hfault.search_eq (.recount front)).2
  · cases hfault with
    | character => simp
    | escape => exact absurd rfl hquote
    | unclosed => exact absurd rfl hquote
    | cutEscape => exact absurd rfl hquote

/-- From wherever they stand the scanners go on alike. -/
theorem scan_eq (h : t.Behind front) (hsource : source.toList = front ++ rest) :
    t.scan source rest = Lexemes.scan (.recount front) rest := by
  fun_induction scan t source rest generalizing front with
  | case1 t =>
      have hend : { t with offset := source.utf8ByteSize } = t := by
        rw [← Text.width_toList, hsource, List.append_nil, ← h.offset_eq]
      rw [hend, h.position_eq hsource, Lexemes.scan]
  | case2 t c rest fault hfault =>
      have hfaulty := Token.scan_eq_error_iff.mp hfault
      rw [h.error_eq hsource hfaulty, Lexemes.scan_cons_of_faulty hfaulty]
  | case3 t c rest s hs e he ih =>
      obtain ⟨hnext, hrest⟩ := h.scanned hsource hs
      rw [Lexemes.scan_cons hs, ← Position.recount_append, ← ih hnext hrest, he]
      rfl
  | case4 t c rest s hs more hmore ih =>
      obtain ⟨hnext, hrest⟩ := h.scanned hsource hs
      rw [Lexemes.scan_cons hs, ← Position.recount_append, ← ih hnext hrest, hmore,
        h.position_eq hsource]
      rfl

theorem tokenize_eq (source : String) : tokenize source = MiniLisp.tokenize source :=
  scan_eq behind_start rfl

end Tracker

/-- Every place that the scanner reports is the one that counting gives, whether it steps over every
character or keeps track of lines and columns. A token stands where the text before its own text
ends, and the end is where the whole text ends. A fault stands where its character or its opening
quote does, or, if it is an unknown escape, where the backslash does. -/
theorem tokenize_position_eq_recount (source : String) :
    Tracker.tokenize source = tokenize source ∧
    (∀ lexemes, tokenize source = .ok lexemes →
      lexemes.stop = .recount source.toList ∧
      ∀ before lexeme after, lexemes.items = before ++ lexeme :: after →
        ∃ front text rest, source.toList = front ++ (text ++ rest) ∧
          SplitsBefore (text ++ rest) (before.map Lexeme.token) front ∧
          lexeme.token.Spelled text ∧ lexeme.token.StopsAt rest ∧
          Splits (after.map Lexeme.token) rest ∧ lexeme.position = .recount front) ∧
    (∀ e, tokenize source = .error e →
      ∃ tokens front rest fault, source.toList = front ++ rest ∧ SplitsBefore rest tokens front ∧
        Token.Faulty rest fault ∧ e.cause = fault.cause ∧
        e.position = .recount (front ++ fault.before)) := by
  simp only [← Position.after_start]
  refine ⟨Tracker.tokenize_eq source, ?_, ?_⟩
  · intro lexemes h
    refine ⟨Lexemes.stop_of_scan h, ?_⟩
    intro before lexeme after hitems
    exact Lexemes.position_of_scan h hitems
  · intro e h
    obtain ⟨tokens, front, rest, fault, hsource, hfront, hfault, rfl⟩ :=
      Lexemes.scan_eq_error_iff.mp h
    exact ⟨tokens, front, rest, fault, hsource, hfront, hfault, rfl, rfl⟩

-- The line feed in the literal is the only one, and the letters around it have two bytes each.
example : Tracker.tokenize "\"é\né\" ab" =
    .ok ⟨[⟨.string "é\né", ⟨1, 1⟩⟩, ⟨.blank, ⟨2, 3⟩⟩, ⟨.symbol "ab", ⟨2, 4⟩⟩], ⟨2, 6⟩⟩ := by
  decide +kernel

end MiniLisp
