import MiniLisp.Proofs.Value.Nodes
import MiniLisp.Reader.Basic

/-!
The grammar of expressions over tokens, with the nesting that a derivation needs. Every quote
character and every pair of parentheses opens one level around what it encloses, and the grammar
counts down the levels that may still be opened.
-/

namespace MiniLisp

abbrev Part := List Token × Value

/-- Expressions with white space after each. -/
def closedParts (parts : List Part) : List Token :=
  parts.flatMap fun part => part.1 ++ [.blank]

/-- Expressions with white space before each. -/
def openedParts (parts : List Part) : List Token :=
  parts.flatMap fun part => .blank :: part.1

/-- `Derives levels used v` says that the tokens `used` spell the value `v` and that at most
`levels` levels of parentheses and quotes are open at any of them. -/
inductive Derives : Nat → List Token → Value → Prop where
  | truth {levels : Nat} : Derives levels [.symbol "#t"] (.bool true)
  | falsity {levels : Nat} : Derives levels [.symbol "#f"] (.bool false)
  | atom {levels : Nat} {name : String} :
      name ≠ "#t" → name ≠ "#f" → Derives levels [.symbol name] (.atom name)
  | string {levels : Nat} {contents : String} :
      Derives levels [.string contents] (.string contents)
  | number {levels : Nat} {n : Int} : Derives levels [.number n] (.number n)
  | quote {levels : Nat} {used : List Token} {v : Value} :
      Derives levels used v → Derives (levels + 1) (.quote :: used) (.list [.atom "quote", v])
  | empty {levels : Nat} : Derives (levels + 1) [.lparen, .rparen] (.list [])
  | list {levels : Nat} {used : List Token} {v : Value} {more : List Part} :
      Derives levels used v → (∀ part ∈ more, Derives levels part.1 part.2) →
        Derives (levels + 1) (.lparen :: (used ++ openedParts more ++ [.rparen]))
          (.list (v :: more.map Prod.snd))
  /-- Any number of expressions with white space after each, a dot and one last expression. -/
  | dotted {levels : Nat} {head : List Part} {used : List Token} {v : Value} :
      (∀ part ∈ head, Derives levels part.1 part.2) → Derives levels used v →
        Derives (levels + 1) (.lparen :: (closedParts head ++ .dot :: .blank :: used ++ [.rparen]))
          (.dotted (head.map Prod.snd) v)

@[simp] theorem closedParts_nil : closedParts [] = [] := rfl

@[simp] theorem closedParts_cons (part : Part) (parts : List Part) :
    closedParts (part :: parts) = part.1 ++ .blank :: closedParts parts := by
  simp [closedParts]

@[simp] theorem closedParts_append (parts more : List Part) :
    closedParts (parts ++ more) = closedParts parts ++ closedParts more := by
  simp [closedParts]

@[simp] theorem openedParts_nil : openedParts [] = [] := rfl

@[simp] theorem openedParts_cons (part : Part) (parts : List Part) :
    openedParts (part :: parts) = .blank :: (part.1 ++ openedParts parts) := by
  simp [openedParts]

def separatedParts : List Part → List Token
  | [] => []
  | part :: parts => part.1 ++ openedParts parts

theorem closedParts_perm (parts : List Part) : (closedParts parts).Perm (openedParts parts) := by
  induction parts with
  | nil => rfl
  | cons part parts ih =>
      rw [closedParts_cons, openedParts_cons]
      exact List.perm_middle.trans (.cons _ (ih.append_left part.1))

/-- Separators may be counted with the expression before them or with the one after. -/
theorem closedParts_append_eq (first last : Part) (parts : List Part) :
    closedParts (first :: parts) ++ last.1 = first.1 ++ openedParts (parts ++ [last]) := by
  induction parts generalizing first with
  | nil => simp
  | cons part parts ih =>
      have hrest := ih part
      rw [closedParts_cons, List.append_assoc, List.cons_append, hrest, List.cons_append,
        openedParts_cons]

/-- The parts without parts of their own that a token contributes to a value. -/
def Token.leaves : Token → List Value
  | .symbol name => [Reader.symbolValue name]
  | .string contents => [.string contents]
  | .number n => [.number n]
  | .quote => [.atom "quote"]
  | _ => []

theorem flatMap_leaves_parts {parts : List Part}
    (h : ∀ part ∈ parts, part.2.leaves = part.1.flatMap Token.leaves) :
    (parts.map Prod.snd).flatMap Value.leaves =
      parts.flatMap fun part => part.1.flatMap Token.leaves := by
  induction parts with
  | nil => rfl
  | cons part parts ih =>
      have hparts := ih fun q hq => h q (List.mem_cons_of_mem part hq)
      rw [List.map_cons, List.flatMap_cons, List.flatMap_cons, h part List.mem_cons_self, hparts]

theorem flatMap_leaves_openedParts (parts : List Part) :
    (openedParts parts).flatMap Token.leaves =
      parts.flatMap fun part => part.1.flatMap Token.leaves := by
  simp [openedParts, List.flatMap_assoc, Token.leaves]

theorem flatMap_leaves_closedParts (parts : List Part) :
    (closedParts parts).flatMap Token.leaves =
      parts.flatMap fun part => part.1.flatMap Token.leaves := by
  simp [closedParts, List.flatMap_assoc, Token.leaves]

namespace Derives

variable {levels : Nat} {used : List Token} {v : Value}

theorem list_snoc {head : List Part} (hhead : ∀ part ∈ head, Derives levels part.1 part.2)
    (h : Derives levels used v) :
    Derives (levels + 1) (.lparen :: (closedParts head ++ used ++ [.rparen]))
      (.list (head.map Prod.snd ++ [v])) := by
  cases head with
  | nil => simpa using @Derives.list levels used v [] h (by simp)
  | cons first parts =>
      have hmore : ∀ part ∈ parts ++ [(used, v)], Derives levels part.1 part.2 := by
        intro part hpart
        rcases List.mem_append.mp hpart with hpart | hpart
        · exact hhead part (List.mem_cons_of_mem _ hpart)
        · obtain rfl := List.mem_singleton.mp hpart
          exact h
      -- The separators now stand before the elements that follow them.
      have hlist := Derives.list (hhead first List.mem_cons_self) hmore
      rw [closedParts_append_eq first (used, v) parts]
      simpa using hlist

theorem list_of_parts {parts : List Part} (h : ∀ part ∈ parts, Derives levels part.1 part.2) :
    Derives (levels + 1) (.lparen :: (separatedParts parts ++ [.rparen]))
      (.list (parts.map Prod.snd)) := by
  cases parts with
  | nil => exact .empty
  | cons part parts =>
      obtain ⟨hpart, hparts⟩ := List.forall_mem_cons.mp h
      exact .list hpart hparts

theorem list_inv {items : List Value}
    (h : Derives (levels + 1) (.lparen :: used) (.list items)) :
    ∃ parts : List Part, used = separatedParts parts ++ [.rparen] ∧
      items = parts.map Prod.snd ∧ ∀ part ∈ parts, Derives levels part.1 part.2 := by
  cases h with
  | empty => exact ⟨[], rfl, rfl, by simp⟩
  | @list _ first v more hfirst hmore =>
      exact ⟨(first, v) :: more, rfl, rfl, List.forall_mem_cons.mpr ⟨hfirst, hmore⟩⟩

theorem dotted_inv {head : List Value} {tail : Value}
    (h : Derives (levels + 1) (.lparen :: used) (.dotted head tail)) :
    ∃ (parts : List Part) (inner : List Token),
      used = closedParts parts ++ .dot :: .blank :: inner ++ [.rparen] ∧
      head = parts.map Prod.snd ∧ (∀ part ∈ parts, Derives levels part.1 part.2) ∧
      Derives levels inner tail := by
  cases h with
  | @dotted _ parts inner _ hparts hinner => exact ⟨parts, inner, rfl, rfl, hparts, hinner⟩

theorem quote_inv (h : Derives (levels + 1) (.quote :: used) v) :
    ∃ w, v = .list [.atom "quote", w] ∧ Derives levels used w := by
  cases h with
  | @quote _ _ w hw => exact ⟨w, rfl, hw⟩

theorem lparen_inv (h : Derives levels (.lparen :: used) v) :
    (∃ items, v = .list items) ∨ ∃ head tail, v = .dotted head tail := by
  cases h with
  | empty => exact .inl ⟨_, rfl⟩
  | list => exact .inl ⟨_, rfl⟩
  | dotted => exact .inr ⟨_, _, rfl⟩

theorem leaf_inv {token : Token} (h : Derives levels (token :: used) v)
    (htoken : levels = 0 ∨ token ∉ [Token.quote, .lparen]) :
    used = [] ∧ Derives 0 [token] v := by
  cases h with
  | truth => exact ⟨rfl, .truth⟩
  | falsity => exact ⟨rfl, .falsity⟩
  | atom htrue hfalse => exact ⟨rfl, .atom htrue hfalse⟩
  | string => exact ⟨rfl, .string⟩
  | number => exact ⟨rfl, .number⟩
  | _ => simp at htoken

/-- A value is never deeper than its derivation allows. -/
theorem depth_le (h : Derives levels used v) : v.depth ≤ levels := by
  induction h with
  | truth => exact Nat.zero_le _
  | falsity => exact Nat.zero_le _
  | atom => exact Nat.zero_le _
  | string => exact Nat.zero_le _
  | number => exact Nat.zero_le _
  | quote _ ih =>
      rw [Value.depth_list_le_iff]
      simpa [Value.depth] using ih
  | empty => simp [Value.depth_list_le_iff]
  | list _ _ ih ihmore =>
      rw [Value.depth_list_le_iff]
      intro w hw
      rcases List.mem_cons.mp hw with rfl | hw
      · exact ih
      · obtain ⟨part, hpart, rfl⟩ := List.mem_map.mp hw
        exact ihmore part hpart
  | dotted _ _ ihhead ih =>
      rw [Value.depth_dotted_le_iff]
      refine ⟨?_, ih⟩
      intro w hw
      obtain ⟨part, hpart, rfl⟩ := List.mem_map.mp hw
      exact ihhead part hpart

/-- A derivation needs no more levels than its value has. -/
theorem of_depth_le {room : Nat} (h : Derives levels used v) (hdepth : v.depth ≤ room) :
    Derives room used v := by
  induction h generalizing room with
  | truth => exact .truth
  | falsity => exact .falsity
  | atom htrue hfalse => exact .atom htrue hfalse
  | string => exact .string
  | number => exact .number
  | quote _ ih =>
      obtain ⟨left, rfl⟩ := Nat.exists_eq_add_one_of_ne_zero (Value.ne_zero_of_depth_list_le hdepth)
      rw [Value.depth_list_le_iff] at hdepth
      exact .quote (ih (hdepth _ (by simp)))
  | empty =>
      obtain ⟨left, rfl⟩ := Nat.exists_eq_add_one_of_ne_zero (Value.ne_zero_of_depth_list_le hdepth)
      exact .empty
  | list _ _ ih ihmore =>
      obtain ⟨left, rfl⟩ := Nat.exists_eq_add_one_of_ne_zero (Value.ne_zero_of_depth_list_le hdepth)
      rw [Value.depth_list_le_iff, List.forall_mem_cons] at hdepth
      refine .list (ih hdepth.1) fun part hpart => ihmore part hpart ?_
      exact hdepth.2 _ (List.mem_map_of_mem hpart)
  | dotted _ _ ihhead ih =>
      obtain ⟨left, rfl⟩ :=
        Nat.exists_eq_add_one_of_ne_zero (Value.ne_zero_of_depth_dotted_le hdepth)
      rw [Value.depth_dotted_le_iff] at hdepth
      refine .dotted (fun part hpart => ihhead part hpart ?_) (ih hdepth.2)
      exact hdepth.1 _ (List.mem_map_of_mem hpart)

/-- The leaves of a value stand in its tokens, in the same order. -/
theorem leaves_eq (h : Derives levels used v) : v.leaves = used.flatMap Token.leaves := by
  induction h with
  | truth => rfl
  | falsity => rfl
  | atom htrue hfalse => simp [Token.leaves, Reader.symbolValue, htrue, hfalse]
  | string => rfl
  | number => rfl
  | quote _ ih => simp [ih, Token.leaves]
  | empty => rfl
  | list _ _ ih ihmore =>
      simp [ih, flatMap_leaves_parts ihmore, flatMap_leaves_openedParts, Token.leaves]
  | dotted _ _ ihhead ih =>
      simp [ih, flatMap_leaves_parts ihhead, flatMap_leaves_closedParts, Token.leaves]

theorem head_not_mem (h : Derives levels used v) :
    ∃ token more, used = token :: more ∧ token ∉ [Token.blank, .dot, .rparen] := by
  cases h <;> exact ⟨_, _, rfl, by simp⟩

theorem head_ne_blank (h : Derives levels used v) :
    ∃ token more, used = token :: more ∧ token ≠ .blank := by
  obtain ⟨token, more, hused, hmem⟩ := h.head_not_mem
  exact ⟨token, more, hused, fun hblank => hmem (by simp [hblank])⟩

theorem last_ne_blank (h : Derives levels used v) :
    ∃ before token, used = before ++ [token] ∧ token ≠ .blank := by
  induction h with
  | quote _ ih =>
      obtain ⟨before, token, rfl, hblank⟩ := ih
      exact ⟨.quote :: before, token, rfl, hblank⟩
  | empty => exact ⟨[.lparen], .rparen, rfl, by simp⟩
  | list => exact ⟨_ :: _, .rparen, rfl, by simp⟩
  | dotted => exact ⟨_ :: _, .rparen, rfl, by simp⟩
  | _ => exact ⟨[], _, rfl, by simp⟩

end Derives

end MiniLisp
