/-!
String literals. Between the quotes a backslash begins an escape, a quote ends the literal, and
every other character, line breaks included, stands for itself.
-/

namespace MiniLisp.Text

/-- The character that a backslash followed by `c` stands for. -/
def unescape? : Char → Option Char
  | '\\' => some '\\'
  | '"' => some '"'
  | 'n' => some '\n'
  | 'r' => some '\r'
  | 't' => some '\t'
  | ' ' => some ' '
  | _ => none

/-- What follows an opening quote: a literal with its contents, its text up to and including the
closing quote and the rest of the source; or an unknown escape with the text before its backslash;
or no end at all. -/
inductive Literal where
  | closed (contents text rest : List Char)
  | badEscape (before : List Char) (escape : Char)
  | unclosed

namespace Literal

def cons (spelling : List Char) (c : Char) : Literal → Literal
  | closed contents text rest => closed (c :: contents) (spelling ++ text) rest
  | badEscape before escape => badEscape (spelling ++ before) escape
  | unclosed => unclosed

/-- Reads on from just after an opening quote, up to the first obstacle. -/
def read : List Char → Literal
  | [] => unclosed
  | '"' :: rest => closed [] ['"'] rest
  | ['\\'] => unclosed
  | '\\' :: escape :: rest =>
      match unescape? escape with
      | some c => (read rest).cons ['\\', escape] c
      | none => badEscape [] escape
  | c :: rest => (read rest).cons [c] c

theorem append_of_cons_eq_closed {spelling contents text rest : List Char} {c : Char}
    {body : Literal} (h : body.cons spelling c = closed contents text rest) :
    ∃ contents' text', body = closed contents' text' rest ∧ text = spelling ++ text' := by
  cases body with
  | closed contents' text' rest' =>
      simp only [cons, closed.injEq] at h
      obtain ⟨-, rfl, rfl⟩ := h
      exact ⟨contents', text', rfl, rfl⟩
  | badEscape before escape => simp [cons] at h
  | unclosed => simp [cons] at h

theorem append_of_read_eq_closed {cs contents text rest : List Char}
    (h : read cs = closed contents text rest) : text ++ rest = cs := by
  fun_induction read cs generalizing contents text with
  | case1 => simp at h
  | case2 rest' =>
      simp only [closed.injEq] at h
      obtain ⟨-, rfl, rfl⟩ := h
      rfl
  | case3 => simp at h
  | case4 escape rest' c hc ih =>
      obtain ⟨contents', text', hbody, rfl⟩ := append_of_cons_eq_closed h
      simp [ih hbody]
  | case5 escape rest' hc => simp at h
  | case6 c rest' _ _ _ ih =>
      obtain ⟨contents', text', hbody, rfl⟩ := append_of_cons_eq_closed h
      simp [ih hbody]

end Literal

end MiniLisp.Text
