import Mathlib.Data.List.Induction
import MiniLisp.Proofs.Token.Faults

/-!
The places that the scanner reports. They are found by stepping over one character after the other,
and they are what counting the lines and columns of the text in front gives from scratch, for every
token and for the end of the text.
-/

namespace MiniLisp

namespace Position

/-- The place just past a text, counted from scratch: a line for every line feed, and a column for
every character after the last line feed. -/
def recount (text : List Char) : Position :=
  ⟨1 + text.count '\n', 1 + (text.reverse.takeWhile (· != '\n')).length⟩

@[simp] theorem recount_concat (text : List Char) (c : Char) :
    recount (text ++ [c]) = (recount text).next c := by
  by_cases hc : c = '\n'
  · subst hc
    simp [recount, next, Nat.add_assoc]
  · simp [recount, next, hc, Nat.add_assoc]

theorem after_start (text : List Char) : start.after text = recount text := by
  induction text using List.reverseRecOn with
  | nil => rfl
  | append_singleton text c ih => rw [after_append, ih, recount_concat, after_cons, after_nil]

end Position

namespace Lexemes

theorem stop_of_scan {p : Position} {source : List Char} {lexemes : Lexemes}
    (h : scan p source = .ok lexemes) : lexemes.stop = p.after source := by
  fun_induction scan p source generalizing lexemes with
  | case1 p =>
      cases h
      rfl
  | case2 p c rest fault hfault => cases h
  | case3 p c rest s hs e he ih => cases h
  | case4 p c rest s hs more hmore ih =>
      cases h
      have hstop := ih hmore
      rw [← Token.append_of_scan hs, ← List.cons_append, Position.after_append]
      exact hstop

/-- Every token is reported at the place that the text in front of it leads to. -/
theorem position_of_scan {p : Position} {source : List Char} {lexemes : Lexemes}
    (h : scan p source = .ok lexemes) {before after : List Lexeme} {lexeme : Lexeme}
    (hitems : lexemes.items = before ++ lexeme :: after) :
    ∃ front text rest, source = front ++ (text ++ rest) ∧
      SplitsBefore (text ++ rest) (before.map Lexeme.token) front ∧
      lexeme.token.Spelled text ∧ lexeme.token.StopsAt rest ∧
      Splits (after.map Lexeme.token) rest ∧ lexeme.position = p.after front := by
  fun_induction scan p source generalizing lexemes before with
  | case1 p =>
      cases h
      simp at hitems
  | case2 p c rest fault hfault => cases h
  | case3 p c rest s hs e he ih => cases h
  | case4 p c rest s hs more hmore ih =>
      cases h
      obtain ⟨hspelled, hstop⟩ := Token.spelled_of_scan hs
      have hsource := Token.append_of_scan hs
      cases before with
      | nil =>
          obtain ⟨rfl, rfl⟩ := List.cons.inj hitems
          refine ⟨[], c :: s.more, s.rest, ?_, .nil, hspelled, hstop, splits_of_scan hmore, rfl⟩
          rw [List.nil_append, List.cons_append, hsource]
      | cons first before =>
          obtain ⟨rfl, hothers⟩ := List.cons.inj hitems
          obtain ⟨front, text, rest', hrest, hfront, htext, hends, hafter, hposition⟩ :=
            ih hmore hothers
          refine ⟨c :: s.more ++ front, text, rest', ?_, ?_, htext, hends, hafter, ?_⟩
          · rw [List.append_assoc, ← hrest, List.cons_append, hsource]
          · exact .cons hspelled (hrest ▸ hstop) hfront
          · rw [Position.after_append]
            exact hposition

/-- The text in front of a token has the tokens before it, at the same places, and ends where the
token stands. -/
theorem scan_front {p : Position} {source : List Char} {lexemes : Lexemes}
    (h : scan p source = .ok lexemes) {before after : List Lexeme} {lexeme : Lexeme}
    (hitems : lexemes.items = before ++ lexeme :: after) :
    ∃ front rest, source = front ++ rest ∧ scan p front = .ok ⟨before, lexeme.position⟩ := by
  fun_induction scan p source generalizing lexemes before with
  | case1 p =>
      cases h
      simp at hitems
  | case2 p c rest fault hfault => cases h
  | case3 p c rest s hs e he ih => cases h
  | case4 p c rest s hs more hmore ih =>
      cases h
      have hsource := Token.append_of_scan hs
      cases before with
      | nil =>
          obtain ⟨rfl, rfl⟩ := List.cons.inj hitems
          exact ⟨[], c :: rest, rfl, by rw [scan]⟩
      | cons first before =>
          obtain ⟨rfl, hothers⟩ := List.cons.inj hitems
          obtain ⟨front, rest', hrest, hfront⟩ := ih hmore hothers
          -- Less text follows the first token than in the source, and it is as long as before.
          obtain ⟨hspelled, hstop⟩ := Token.spelled_of_scan hs
          rw [hrest] at hstop
          obtain ⟨c', more', hc, hfirst⟩ := Token.scan_of_spelled hspelled hstop.of_append
          obtain ⟨rfl, rfl⟩ := List.cons.inj hc
          refine ⟨c :: (s.more ++ front), rest', ?_, ?_⟩
          · rw [List.cons_append, List.append_assoc, ← hrest, hsource]
          · rw [scan_cons hfirst, hfront]
            rfl

end Lexemes

end MiniLisp
