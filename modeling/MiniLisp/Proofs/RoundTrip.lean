import Mathlib.Algebra.BigOperators.Group.List.Basic
import Mathlib.Algebra.Ring.Nat
import MiniLisp.Proofs.Reader.Source
import MiniLisp.Proofs.Value.Tokens

/-!
Which values are read back from their own text. A value whose parts are all legible is, within its
depth. Conversely nothing else is, even though the quotes inside a string that is written without
escapes may make its neighbours part of a literal. The argument counts. Every backslash and every
hash that a leaf is written with is needed to read the leaf, and a string with a quote or a
backslash, like a truth value, needs more of them than it is written with. So no text can be too
short of them anywhere, and then its tokens are known and only dotted lists without elements are
left, which are written with one blank more than any derivation has.
-/

namespace MiniLisp

namespace Value

/-- What a part of a value must be like for the value to be read back from its text. -/
def Legible : Value → Prop
  | atom name => Text.isSymbol name.toList = true ∧ name ≠ "#t" ∧ name ≠ "#f"
  | number n => 0 ≤ n
  | string contents => '"' ∉ contents.toList ∧ '\\' ∉ contents.toList
  | bool _ => False
  | list _ => True
  | dotted head _ => head ≠ []

def Readable (v : Value) : Prop :=
  ∀ u ∈ v.nodes, u.Legible

instance (v : Value) : Decidable v.Legible :=
  match v with
  | atom _ => inferInstanceAs (Decidable (_ ∧ _ ∧ _))
  | number _ => inferInstanceAs (Decidable (_ ≤ _))
  | string _ => inferInstanceAs (Decidable (_ ∧ _))
  | bool _ => inferInstanceAs (Decidable False)
  | list _ => inferInstanceAs (Decidable True)
  | dotted _ _ => inferInstanceAs (Decidable (_ ≠ _))

instance (v : Value) : Decidable v.Readable :=
  inferInstanceAs (Decidable (∀ u ∈ v.nodes, u.Legible))

theorem Legible.plain {v : Value} (h : v.Legible) : v.Plain := by
  cases v with
  | atom name => exact h.1
  | string contents => exact h
  | _ => trivial

end Value

/-! ### A legible value is read back -/

namespace Value

def part (v : Value) : Part :=
  (v.tokens, v)

theorem tokensAll_cons (v : Value) (vs : List Value) :
    tokensAll (v :: vs) = v.tokens ++ openedParts (vs.map part) := by
  induction vs generalizing v with
  | nil => simp [tokensAll]
  | cons w vs ih =>
      rw [tokensAll, ih w]
      simp [part]

theorem closedParts_map_part {vs : List Value} (h : vs ≠ []) :
    closedParts (vs.map part) = tokensAll vs ++ [.blank] := by
  obtain ⟨v, vs, rfl⟩ := List.exists_cons_of_ne_nil h
  clear h
  induction vs generalizing v with
  | nil => simp [tokensAll, part]
  | cons w vs ih =>
      rw [List.map_cons, closedParts_cons, ih w, tokensAll]
      simp [part]

/-- The tokens of a readable value derive it in as many levels as it is deep. -/
theorem derives_tokens {v : Value} (h : v.Readable) {levels : Nat} (hdepth : v.depth ≤ levels) :
    Derives levels v.tokens v := by
  induction v using Value.induction generalizing levels with
  | atom name =>
      obtain ⟨-, htrue, hfalse⟩ : Legible (atom name) := h _ (self_mem_nodes _)
      exact .atom htrue hfalse
  | list items ih =>
      obtain ⟨-, hitems⟩ := forall_nodes_list.mp h
      obtain ⟨room, rfl⟩ : ∃ room, levels = room + 1 := ⟨levels - 1, by rw [depth] at hdepth; omega⟩
      rw [depth_list_le_iff] at hdepth
      cases items with
      | nil => exact .empty
      | cons v vs =>
          have hparts : ∀ p ∈ vs.map part, Derives room p.1 p.2 := by
            intro p hp
            obtain ⟨w, hw, rfl⟩ := List.mem_map.mp hp
            have hmem := List.mem_cons_of_mem v hw
            exact ih w hmem (hitems w hmem) (hdepth w hmem)
          have hv := ih v List.mem_cons_self (hitems v List.mem_cons_self)
            (hdepth v List.mem_cons_self)
          have hlist := hv.list hparts
          simpa [tokens, tokensAll_cons, part, Function.comp_def] using hlist
  | dotted head tail ihhead ihtail =>
      obtain ⟨hne, hhead, htail⟩ := forall_nodes_dotted.mp h
      obtain ⟨room, rfl⟩ : ∃ room, levels = room + 1 := ⟨levels - 1, by rw [depth] at hdepth; omega⟩
      obtain ⟨hheads, htails⟩ := depth_dotted_le_iff.mp hdepth
      have hparts : ∀ p ∈ head.map part, Derives room p.1 p.2 := by
        intro p hp
        obtain ⟨w, hw, rfl⟩ := List.mem_map.mp hp
        exact ihhead w hw (hhead w hw) (hheads w hw)
      have hdotted := Derives.dotted hparts (ihtail htail htails)
      rw [closedParts_map_part hne] at hdotted
      simpa [tokens, part, Function.comp_def] using hdotted
  | number n =>
      have hn : 0 ≤ n := h (number n) (self_mem_nodes _)
      obtain ⟨n, rfl⟩ := Int.eq_ofNat_of_zero_le hn
      exact .number
  | string contents => exact .string
  | bool b => exact (h (bool b) (self_mem_nodes _)).elim

theorem splits_tokens {v : Value} (h : ∀ u ∈ v.nodes, u.Plain) : Splits v.tokens v.chars := by
  have hprints := prints_of_plain v h [] [] .nil bounds_nil
  rwa [List.append_nil] at hprints

theorem parse_text_of_readable {v : Value} (h : v.Readable) {limit : Nat}
    (hdepth : v.depth ≤ limit) : parse limit v.text = .ok v := by
  refine parse_eq_ok_iff.mpr ⟨[], v.tokens, [], ?_, .inl rfl, .inl rfl, derives_tokens h hdepth⟩
  rw [List.nil_append, List.append_nil, text, String.toList_ofList]
  exact splits_tokens fun u hu => (h u hu).plain

end Value

/-! ### Leaves that need more marks than they are written with -/

/-- The two characters whose number bounds what a text can spell. -/
def isMark (c : Char) : Bool :=
  c == '\\' || c == '#'

namespace Value

/-- How many marks are needed to read a leaf beyond those it is written with. -/
def missing : Value → Nat
  | string contents => contents.toList.countP Text.needsEscape
  | bool _ => 1
  | _ => 0

def needed (v : Value) : Nat :=
  v.chars.countP isMark + v.missing

theorem countP_writeAll {vs : List Value}
    (h : ∀ v ∈ vs, ∀ rest, (v.write rest).countP isMark =
      (v.leaves.map fun u => u.chars.countP isMark).sum + rest.countP isMark) (rest : List Char) :
    (writeAll vs rest).countP isMark =
      ((vs.flatMap leaves).map fun u => u.chars.countP isMark).sum + rest.countP isMark := by
  induction vs with
  | nil => simp [writeAll]
  | cons v vs ih =>
      have hv := h v List.mem_cons_self
      have hvs := ih fun u hu => h u (List.mem_cons_of_mem v hu)
      cases vs with
      | nil => simp [writeAll, hv]
      | cons w vs =>
          have hspace : isMark ' ' = false := rfl
          simp only [writeAll, hv, List.countP_cons, hspace, hvs, List.flatMap_cons,
            List.map_append, List.sum_append, Bool.false_eq_true, if_false]
          omega

theorem countP_write (v : Value) (rest : List Char) :
    (v.write rest).countP isMark =
      (v.leaves.map fun u => u.chars.countP isMark).sum + rest.countP isMark := by
  induction v using Value.induction generalizing rest with
  | list items ih =>
      rw [write, List.countP_cons, countP_writeAll ih, List.countP_cons]
      simp [isMark]
  | dotted head tail ihhead ihtail =>
      have hclose := ihtail (')' :: rest)
      rw [write, List.countP_cons, countP_writeAll ihhead]
      simp only [List.countP_cons, hclose, leaves_dotted, List.map_append, List.sum_append]
      simp only [isMark, Char.reduceBEq, Bool.or_self, Bool.false_eq_true, if_false]
      omega
  | atom name => simp [chars, write]
  | number n => simp [chars, write]
  | string contents =>
      simp only [leaves_string, List.map_cons, List.map_nil, List.sum_cons, List.sum_nil, chars,
        write, List.countP_cons, List.countP_append, List.countP_nil]
      omega
  | bool b => simp [chars, write]

end Value

theorem countP_le_of_escaped {contents body : List Char} (h : Text.Escaped contents body) :
    contents.countP isMark + contents.countP Text.needsEscape ≤ body.countP isMark := by
  induction h with
  | nil => simp
  | @raw c contents body hquote hbackslash _ ih =>
      have hneeds : Text.needsEscape c = false := by simp [Text.needsEscape, hquote, hbackslash]
      simp only [List.countP_cons, hneeds]
      simp only [Bool.false_eq_true, if_false]
      omega
  | @escape e c contents body he _ ih =>
      -- A backslash is the worst case: it is a mark itself and is spelled with two.
      have hmarks : (if isMark c then 1 else 0) + (if Text.needsEscape c then 1 else 0) ≤
          1 + if isMark e then 1 else 0 := by
        have hall : ∀ pair ∈ Text.escapes,
            (if isMark pair.2 then 1 else 0) + (if Text.needsEscape pair.2 then 1 else 0) ≤
              1 + if isMark pair.1 then 1 else 0 := by decide
        exact hall (e, c) he
      have hbackslash : isMark '\\' = true := rfl
      simp only [List.countP_cons, hbackslash, if_true]
      omega

theorem countP_toDigits (n : Nat) : (Nat.toDigits 10 n).countP isMark = 0 := by
  rw [List.countP_eq_zero]
  intro c hc hmark
  have hdigit := Decimal.isDigit_of_mem_toDigits hc
  simp only [isMark, Bool.or_eq_true, beq_iff_eq] at hmark
  rcases hmark with rfl | rfl <;> simp at hdigit

theorem needed_symbolValue_le (name : List Char) :
    (Reader.symbolValue (String.ofList name)).needed ≤ name.countP isMark := by
  unfold Reader.symbolValue
  split
  · next htrue =>
      obtain rfl : name = "#t".toList := by rw [← htrue, String.toList_ofList]
      decide
  · split
    · next hfalse =>
        obtain rfl : name = "#f".toList := by rw [← hfalse, String.toList_ofList]
        decide
    · simp [Value.needed, Value.missing, Value.chars, Value.write]

/-- The text of a token has the marks that its leaf needs. -/
theorem needed_le_of_spelled {token : Token} {lexeme : List Char} (h : token.Spelled lexeme) :
    (token.leaves.map Value.needed).sum ≤ lexeme.countP isMark := by
  cases h with
  | @number digits _ _ =>
      have hchars : (Value.number (Decimal.positional lexeme)).chars =
          Nat.toDigits 10 (Decimal.positional lexeme) := List.append_nil _
      simp [Token.leaves, Value.needed, Value.missing, hchars, countP_toDigits]
  | @string contents body hbody =>
      have hle := countP_le_of_escaped hbody
      have hquote : isMark '"' = false := rfl
      simp only [Token.leaves, Value.needed, Value.missing, Value.chars, Value.write,
        List.map_cons, List.map_nil, List.sum_cons, List.sum_nil, String.toList_ofList,
        List.countP_cons, List.countP_append, List.countP_nil, hquote]
      simp only [Bool.false_eq_true, if_false]
      omega
  | @symbol name _ => simpa [Token.leaves] using needed_symbolValue_le lexeme
  | quote => decide
  | _ => simp [Token.leaves]

theorem needed_le_of_splits {tokens : List Token} {cs : List Char} (h : Splits tokens cs) :
    ((tokens.flatMap Token.leaves).map Value.needed).sum ≤ cs.countP isMark := by
  induction h with
  | nil => simp
  | cons hspelled _ _ ih =>
      have hle := needed_le_of_spelled hspelled
      simp only [List.flatMap_cons, List.map_append, List.sum_append, List.countP_append]
      omega

theorem Value.missing_eq_zero_of_splits {v : Value} {tokens : List Token}
    (hsplits : Splits tokens v.chars) (hleaves : v.leaves = tokens.flatMap Token.leaves) :
    ∀ u ∈ v.leaves, u.missing = 0 := by
  have hneeded := needed_le_of_splits hsplits
  have hwritten := countP_write v []
  have hsum : (v.leaves.map needed).sum =
      (v.leaves.map fun u => u.chars.countP isMark).sum + (v.leaves.map missing).sum :=
    List.sum_map_add
  rw [← hleaves] at hneeded
  -- The text has what its leaves are written with, and that must cover what they need.
  have hzero : (v.leaves.map missing).sum = 0 := by
    rw [chars] at hneeded
    simp only [List.countP_nil] at hwritten
    omega
  intro u hu
  exact List.sum_eq_zero_iff_forall_eq_nat.mp hzero _ (List.mem_map_of_mem hu)

/-- A leaf that can be spelled and needs no more marks than it is written with is legible. -/
theorem Value.Spellable.legible {u : Value} (h : u.Spellable) (hleaf : u.isLeaf = true)
    (hmissing : u.missing = 0) : u.Legible := by
  cases u with
  | atom name => exact h
  | number n => exact h
  | string contents =>
      have hnone := List.countP_eq_zero.mp hmissing
      exact ⟨fun hquote => hnone _ hquote rfl, fun hbackslash => hnone _ hbackslash rfl⟩
  | bool b => cases hmissing
  | list items => trivial
  | dotted head tail => cases hleaf

/-! ### Dotted lists without elements -/

namespace Value

/-- The separators that a list or a dotted list is read with. -/
def gaps : Value → Nat
  | list items => items.length - 1
  | dotted head _ => head.length + 1
  | _ => 0

/-- The separators that a value is written with and that cannot be read. -/
def surplus : Value → Nat
  | dotted [] _ => 1
  | _ => 0

theorem count_blank_tokensAll {vs : List Value}
    (h : ∀ v ∈ vs, v.tokens.count .blank = (v.nodes.map fun u => u.gaps + u.surplus).sum) :
    (tokensAll vs).count .blank =
      ((vs.flatMap nodes).map fun u => u.gaps + u.surplus).sum + (vs.length - 1) := by
  induction vs with
  | nil => rfl
  | cons v vs ih =>
      have hv := h v List.mem_cons_self
      have hvs := ih fun u hu => h u (List.mem_cons_of_mem v hu)
      cases vs with
      | nil => simp [tokensAll, hv]
      | cons w vs =>
          rw [tokensAll, List.count_append, hv, List.count_cons_self, hvs]
          simp only [List.flatMap_cons, List.map_append, List.sum_append, List.length_cons]
          omega

theorem count_blank_tokens (v : Value) :
    v.tokens.count .blank = (v.nodes.map fun u => u.gaps + u.surplus).sum := by
  induction v using Value.induction with
  | list items ih =>
      have hitems := count_blank_tokensAll ih
      have hcount : (list items).tokens.count .blank = (tokensAll items).count .blank := by
        simp [tokens]
      rw [hcount, hitems, nodes_list, List.map_cons, List.sum_cons]
      simp only [gaps, surplus]
      omega
  | dotted head tail ihhead ihtail =>
      have hhead := count_blank_tokensAll ihhead
      -- One blank stands in front of the dot and one behind it, and the first of them is one too
      -- many only if nothing stands in front of the dot.
      have hcount : (dotted head tail).tokens.count .blank =
          (tokensAll head).count .blank + tail.tokens.count .blank + 2 := by
        simp only [tokens, ne_eq, reduceCtorEq, not_false_eq_true, List.count_cons_of_ne,
          List.count_append, List.count_cons_self, List.count_nil]
        omega
      rw [hcount, hhead, ihtail, nodes_dotted, List.map_cons, List.sum_cons, List.map_append,
        List.sum_append]
      cases head with
      | nil =>
          simp only [gaps, surplus, List.length_nil]
          omega
      | cons v vs =>
          simp only [gaps, surplus, List.length_cons]
          omega
  | number n => cases n <;> rfl
  | atom name => rfl
  | string contents => rfl
  | bool b => rfl

end Value

theorem count_blank_openedParts {parts : List Part}
    (h : ∀ part ∈ parts, part.1.count .blank ≤ (part.2.nodes.map Value.gaps).sum) :
    (openedParts parts).count .blank ≤
      (((parts.map Prod.snd).flatMap Value.nodes).map Value.gaps).sum + parts.length := by
  induction parts with
  | nil => simp
  | cons part parts ih =>
      have hpart := h part List.mem_cons_self
      have hparts := ih fun q hq => h q (List.mem_cons_of_mem part hq)
      simp only [openedParts_cons, List.count_cons_self, List.count_append, List.map_cons,
        List.flatMap_cons, List.map_append, List.sum_append, List.length_cons]
      omega

/-- A derivation has no more separators than its value has gaps. -/
theorem Derives.count_blank_le {levels : Nat} {used : List Token} {v : Value}
    (h : Derives levels used v) : used.count .blank ≤ (v.nodes.map Value.gaps).sum := by
  induction h with
  | truth => simp
  | falsity => simp
  | atom => simp
  | string => simp
  | number => simp
  | @quote levels used v _ ih =>
      -- A quoted expression is spelled with fewer blanks than the list that it stands for.
      have hcount : (Token.quote :: used).count .blank = used.count .blank := by simp
      have hnodes : ((Value.list [.atom "quote", v]).nodes.map Value.gaps).sum =
          1 + (v.nodes.map Value.gaps).sum := by simp [Value.gaps]
      omega
  | empty => simp
  | @list levels used v more _ _ ih ihmore =>
      have hmore := count_blank_openedParts ihmore
      have hcount : (Token.lparen :: (used ++ openedParts more ++ [.rparen])).count .blank =
          used.count .blank + (openedParts more).count .blank := by simp
      rw [hcount, Value.nodes_list, List.map_cons, List.sum_cons, List.flatMap_cons,
        List.map_append, List.sum_append, Value.gaps, List.length_cons, List.length_map]
      omega
  | @dotted levels head used v _ _ ihhead ih =>
      have hhead := count_blank_openedParts ihhead
      rw [← (closedParts_perm head).count_eq] at hhead
      have hcount : (Token.lparen :: (closedParts head ++ .dot :: .blank :: used ++
          [.rparen])).count .blank = (closedParts head).count .blank + (used.count .blank + 1) := by
        simp
      rw [hcount, Value.nodes_dotted, List.map_cons, List.sum_cons, List.map_append,
        List.sum_append, Value.gaps, List.length_map]
      omega

namespace Value

theorem head?_tokens_ne_blank (v : Value) : v.tokens.head? ≠ some .blank := by
  cases v with
  | number n => cases n <;> simp [tokens]
  | _ => simp [tokens]

theorem getLast?_tokens_ne_blank (v : Value) : v.tokens.getLast? ≠ some .blank := by
  cases v with
  | number n => cases n <;> simp [tokens]
  | _ => simp [tokens, List.getLast?_cons]

theorem eq_tokens_of_append {v : Value} {before used after : List Token}
    (h : before ++ used ++ after = v.tokens) (hbefore : AtMostBlank before)
    (hafter : AtMostBlank after) : used = v.tokens := by
  have hhead := v.head?_tokens_ne_blank
  have hlast := v.getLast?_tokens_ne_blank
  rw [← h] at hhead hlast
  obtain rfl : before = [] := by
    rcases hbefore with rfl | rfl
    · rfl
    · simp at hhead
  obtain rfl : after = [] := by
    rcases hafter with rfl | rfl
    · rfl
    · simp at hlast
  simpa using h

theorem plain_of_leaves {v : Value} (h : ∀ u ∈ v.leaves, u.Legible) : ∀ u ∈ v.nodes, u.Plain := by
  intro u hu
  cases u with
  | list items => trivial
  | dotted head tail => trivial
  | _ => exact (h _ (mem_leaves hu rfl)).plain

theorem legible_leaves {v : Value} {tokens : List Token} (hsplits : Splits tokens v.chars)
    (hleaves : v.leaves = tokens.flatMap Token.leaves) : ∀ u ∈ v.leaves, u.Legible := by
  intro u hu
  have hspellable := spellable_of_splits hsplits u (hleaves ▸ hu)
  have hleaf := (List.mem_filter.mp hu).2
  exact hspellable.legible hleaf (missing_eq_zero_of_splits hsplits hleaves u hu)

theorem surplus_eq_zero_of_derives {v : Value} {levels : Nat} (h : Derives levels v.tokens v) :
    ∀ u ∈ v.nodes, u.surplus = 0 := by
  have hle := h.count_blank_le
  have hsum : (v.nodes.map fun u => u.gaps + u.surplus).sum =
      (v.nodes.map gaps).sum + (v.nodes.map surplus).sum := List.sum_map_add
  have hzero : (v.nodes.map surplus).sum = 0 := by
    rw [count_blank_tokens] at hle
    omega
  intro u hu
  exact List.sum_eq_zero_iff_forall_eq_nat.mp hzero _ (List.mem_map_of_mem hu)

theorem readable_of_leaves {v : Value} (hleaves : ∀ u ∈ v.leaves, u.Legible)
    (hsurplus : ∀ u ∈ v.nodes, u.surplus = 0) : v.Readable := by
  intro u hu
  cases u with
  | list items => trivial
  | dotted head tail =>
      rintro rfl
      exact absurd (hsurplus _ hu) (by simp [surplus])
  | _ => exact hleaves _ (mem_leaves hu rfl)

/-- A value is read back from its own text, within a nesting limit, exactly when all its parts are
legible and it is not deeper than the limit. -/
theorem parse_text_eq_ok_iff (v : Value) (limit : Nat) :
    parse limit v.text = .ok v ↔ v.Readable ∧ v.depth ≤ limit := by
  constructor
  · intro h
    obtain ⟨before, used, after, hsplits, hbefore, hafter, hderives⟩ := parse_eq_ok_iff.mp h
    rw [text, String.toList_ofList] at hsplits
    have hleaves : v.leaves = (before ++ used ++ after).flatMap Token.leaves := by
      rw [hderives.leaves_eq]
      rcases hbefore with rfl | rfl <;> rcases hafter with rfl | rfl <;> simp [Token.leaves]
    have hlegible := legible_leaves hsplits hleaves
    -- The leaves are plain, so the tokens that were read are those the value is written with.
    have htokens := hsplits.unique (splits_tokens (plain_of_leaves hlegible))
    obtain rfl := eq_tokens_of_append htokens hbefore hafter
    exact ⟨readable_of_leaves hlegible (surplus_eq_zero_of_derives hderives), hderives.depth_le⟩
  · rintro ⟨hreadable, hdepth⟩
    exact parse_text_of_readable hreadable hdepth

end Value

end MiniLisp
