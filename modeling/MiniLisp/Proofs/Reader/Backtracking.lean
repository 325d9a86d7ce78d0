import MiniLisp.Proofs.Reader.Exactness

/-!
A second reader, which follows the grammar by trying. After an opening parenthesis it tries to read
a proper list up to and including the closing parenthesis. If that fails, for whatever reason, it
goes back to where the list begins and tries a dotted list. Forms inside are read the same way, with
one level less, and a failure says nothing but that it is one. The reader that takes every token
only once and never goes back reads the same expressions from the same tokens.
-/

namespace MiniLisp

/-- A reader that takes at least one token from the front whenever it finds a value there. -/
structure Attempt where
  read : List Lexeme → Option (Value × List Lexeme)
  length_lt : ∀ {lexemes rest : List Lexeme} {v : Value},
    read lexemes = some (v, rest) → rest.length < lexemes.length

namespace Attempt

def expect (token : Token) : List Lexeme → Option (List Lexeme)
  | [] => none
  | lexeme :: rest => if lexeme.token = token then some rest else none

theorem expect_eq_some_iff {token : Token} {lexemes rest : List Lexeme} :
    expect token lexemes = some rest ↔ ∃ p, lexemes = ⟨token, p⟩ :: rest := by
  cases lexemes with
  | nil => simp [expect]
  | cons lexeme lexemes =>
      obtain ⟨token', p⟩ := lexeme
      simp only [expect, Option.ite_none_right_eq_some, Option.some.injEq, List.cons.injEq,
        Lexeme.mk.injEq]
      constructor
      · rintro ⟨rfl, rfl⟩
        exact ⟨p, ⟨rfl, rfl⟩, rfl⟩
      · rintro ⟨-, ⟨rfl, rfl⟩, rfl⟩
        exact ⟨rfl, rfl⟩

theorem expect_cons_self (token : Token) (p : Position) (rest : List Lexeme) :
    expect token (⟨token, p⟩ :: rest) = some rest :=
  expect_eq_some_iff.mpr ⟨p, rfl⟩

theorem length_lt_of_expect {token : Token} {lexemes rest : List Lexeme}
    (h : expect token lexemes = some rest) : rest.length < lexemes.length := by
  obtain ⟨p, rfl⟩ := expect_eq_some_iff.mp h
  exact Nat.lt_succ_self _

def afterBlank (item : Attempt) : Attempt where
  read lexemes := do
    let rest ← expect .blank lexemes
    item.read rest
  length_lt h := by
    obtain ⟨rest, hblank, hitem⟩ := Option.bind_eq_some_iff.mp h
    exact Nat.lt_trans (item.length_lt hitem) (length_lt_of_expect hblank)

def beforeBlank (item : Attempt) : Attempt where
  read lexemes := do
    let (v, rest) ← item.read lexemes
    let rest ← expect .blank rest
    return (v, rest)
  length_lt h := by
    obtain ⟨⟨v, rest⟩, hitem, h⟩ := Option.bind_eq_some_iff.mp h
    obtain ⟨rest', hblank, h⟩ := Option.bind_eq_some_iff.mp h
    cases h
    exact Nat.lt_trans (length_lt_of_expect hblank) (item.length_lt hitem)

/-- As many times what `one` reads as there are in front. -/
def many (one : Attempt) (lexemes : List Lexeme) : List Value × List Lexeme :=
  match _h : one.read lexemes with
  | none => ([], lexemes)
  | some (v, rest) =>
      let (vs, rest) := many one rest
      (v :: vs, rest)
termination_by lexemes.length
decreasing_by exact one.length_lt _h

/-- Nothing, or what `item` reads and more of it with white space before each. -/
def separated (item : Attempt) (lexemes : List Lexeme) : List Value × List Lexeme :=
  match item.read lexemes with
  | none => ([], lexemes)
  | some (v, rest) =>
      let (vs, rest) := item.afterBlank.many rest
      (v :: vs, rest)

def properList (item : Attempt) (lexemes : List Lexeme) : Option (Value × List Lexeme) := do
  let (items, rest) := item.separated lexemes
  let rest ← expect .rparen rest
  return (.list items, rest)

def dottedList (item : Attempt) (lexemes : List Lexeme) : Option (Value × List Lexeme) := do
  let (head, rest) := item.beforeBlank.many lexemes
  let rest ← expect .dot rest
  let rest ← expect .blank rest
  let (tail, rest) ← item.read rest
  let rest ← expect .rparen rest
  return (.dotted head tail, rest)

def leaf : List Lexeme → Option (Value × List Lexeme)
  | ⟨.symbol name, _⟩ :: rest =>
      match name with
      | "#t" => some (.bool true, rest)
      | "#f" => some (.bool false, rest)
      | name => some (.atom name, rest)
  | ⟨.string contents, _⟩ :: rest => some (.string contents, rest)
  | ⟨.number n, _⟩ :: rest => some (.number n, rest)
  | _ => none

/-- An expression whose inner expressions are read by `item`. The dotted list is tried only when the
proper list has failed. -/
def form (item : Attempt) : List Lexeme → Option (Value × List Lexeme)
  | ⟨.quote, _⟩ :: rest => do
      let (v, rest) ← item.read rest
      return (.list [.atom "quote", v], rest)
  | ⟨.lparen, _⟩ :: rest => (properList item rest).or (dottedList item rest)
  | lexemes => leaf lexemes

/-! ### Progress -/

variable {item one : Attempt} {lexemes rest : List Lexeme} {v : Value} {levels : Nat}

theorem length_many_le (one : Attempt) (lexemes : List Lexeme) :
    (one.many lexemes).2.length ≤ lexemes.length := by
  fun_induction many one lexemes with
  | case1 lexemes _ => exact Nat.le_refl _
  | case2 lexemes v rest hread vs last hmany ih =>
      have hlt := one.length_lt hread
      rw [hmany] at ih
      exact Nat.le_trans ih (Nat.le_of_lt hlt)

theorem length_separated_le (item : Attempt) (lexemes : List Lexeme) :
    (item.separated lexemes).2.length ≤ lexemes.length := by
  unfold separated
  split
  · exact Nat.le_refl _
  · next v rest hitem =>
      exact Nat.le_trans (item.afterBlank.length_many_le rest) (Nat.le_of_lt (item.length_lt hitem))

theorem length_lt_of_properList (h : properList item lexemes = some (v, rest)) :
    rest.length < lexemes.length := by
  obtain ⟨last, hclose, h⟩ := Option.bind_eq_some_iff.mp h
  cases h
  exact Nat.lt_of_lt_of_le (length_lt_of_expect hclose) (item.length_separated_le lexemes)

theorem length_lt_of_dottedList (h : dottedList item lexemes = some (v, rest)) :
    rest.length < lexemes.length := by
  obtain ⟨afterDot, hdot, h⟩ := Option.bind_eq_some_iff.mp h
  obtain ⟨afterBlank, hblank, h⟩ := Option.bind_eq_some_iff.mp h
  obtain ⟨⟨tail, afterTail⟩, htail, h⟩ := Option.bind_eq_some_iff.mp h
  obtain ⟨last, hclose, h⟩ := Option.bind_eq_some_iff.mp h
  cases h
  have hhead := item.beforeBlank.length_many_le lexemes
  have hdot := length_lt_of_expect hdot
  have hblank := length_lt_of_expect hblank
  have htail := item.length_lt htail
  have hclose := length_lt_of_expect hclose
  omega

theorem length_lt_of_leaf (h : leaf lexemes = some (v, rest)) : rest.length < lexemes.length := by
  unfold leaf at h
  split at h
  · split at h <;> cases h <;> exact Nat.lt_succ_self _
  · cases h
    exact Nat.lt_succ_self _
  · cases h
    exact Nat.lt_succ_self _
  · cases h

theorem length_lt_of_form (h : form item lexemes = some (v, rest)) :
    rest.length < lexemes.length := by
  unfold form at h
  split at h
  · next p inner =>
      obtain ⟨⟨w, last⟩, hitem, h⟩ := Option.bind_eq_some_iff.mp h
      cases h
      exact Nat.lt_succ_of_lt (item.length_lt hitem)
  · next p inner =>
      rcases Option.or_eq_some_iff.mp h with h | ⟨-, h⟩
      · exact Nat.lt_succ_of_lt (length_lt_of_properList h)
      · exact Nat.lt_succ_of_lt (length_lt_of_dottedList h)
  · exact length_lt_of_leaf h

def expression : Nat → Attempt
  | 0 => ⟨leaf, length_lt_of_leaf⟩
  | levels + 1 => ⟨form (expression levels), length_lt_of_form⟩

/-! ### What the attempts read -/

/-- `item.Exact levels` says that `item` reads the expressions that have at most `levels` levels,
and nothing else. -/
def Exact (item : Attempt) (levels : Nat) : Prop :=
  ∀ lexemes v rest, item.read lexemes = some (v, rest) ↔
    ∃ used, lexemes = used ++ rest ∧ Derives levels (used.map Lexeme.token) v

def ExactWith (one : Attempt) (wrap : List Token → List Token) (levels : Nat) : Prop :=
  ∀ lexemes v rest, one.read lexemes = some (v, rest) ↔
    ∃ used tokens, lexemes = used ++ rest ∧ used.map Lexeme.token = wrap tokens ∧
      Derives levels tokens v

theorem Exact.afterBlank (h : item.Exact levels) :
    item.afterBlank.ExactWith (.blank :: ·) levels := by
  intro lexemes v rest
  constructor
  · intro hread
    obtain ⟨inner, hblank, hitem⟩ := Option.bind_eq_some_iff.mp hread
    obtain ⟨p, rfl⟩ := expect_eq_some_iff.mp hblank
    obtain ⟨used, rfl, hused⟩ := (h inner v rest).mp hitem
    exact ⟨⟨.blank, p⟩ :: used, used.map Lexeme.token, rfl, rfl, hused⟩
  · rintro ⟨used, tokens, rfl, htokens, hderives⟩
    obtain ⟨⟨token, p⟩, used, rfl, rfl, rfl⟩ := List.map_eq_cons_iff.mp htokens
    have hitem := (h (used ++ rest) v rest).mpr ⟨used, rfl, hderives⟩
    exact Option.bind_eq_some_iff.mpr ⟨used ++ rest, expect_cons_self .blank p _, hitem⟩

theorem Exact.beforeBlank (h : item.Exact levels) :
    item.beforeBlank.ExactWith (· ++ [.blank]) levels := by
  intro lexemes v rest
  constructor
  · intro hread
    obtain ⟨⟨w, last⟩, hitem, hread⟩ := Option.bind_eq_some_iff.mp hread
    obtain ⟨rest', hblank, hread⟩ := Option.bind_eq_some_iff.mp hread
    cases hread
    obtain ⟨p, rfl⟩ := expect_eq_some_iff.mp hblank
    obtain ⟨used, rfl, hused⟩ := (h _ _ _).mp hitem
    exact ⟨used ++ [⟨.blank, p⟩], used.map Lexeme.token, by simp, by simp, hused⟩
  · rintro ⟨used, tokens, rfl, htokens, hderives⟩
    obtain ⟨used, blank, rfl, rfl, hblank⟩ := List.map_eq_append_iff.mp htokens
    obtain ⟨⟨token, p⟩, rfl, rfl⟩ := List.map_eq_singleton_iff.mp hblank
    have hitem := (h (used ++ ⟨.blank, p⟩ :: rest) v _).mpr ⟨used, rfl, hderives⟩
    rw [List.append_assoc]
    refine Option.bind_eq_some_iff.mpr ⟨_, hitem, ?_⟩
    exact Option.bind_eq_some_iff.mpr ⟨rest, expect_cons_self .blank p rest, rfl⟩

theorem ExactWith.many_eq_iff {wrap : List Token → List Token} (h : one.ExactWith wrap levels)
    {vs : List Value} :
    one.many lexemes = (vs, rest) ↔ one.read rest = none ∧
      ∃ (used : List Lexeme) (parts : List Part), lexemes = used ++ rest ∧
        used.map Lexeme.token = parts.flatMap (fun part => wrap part.1) ∧
        vs = parts.map Prod.snd ∧ ∀ part ∈ parts, Derives levels part.1 part.2 := by
  -- From left to right the recursion of the loop gives the parts, from right to left the parts say
  -- how often the loop runs.
  constructor
  · intro hmany
    fun_induction many one lexemes generalizing vs with
    | case1 lexemes hnone =>
        cases hmany
        exact ⟨hnone, [], [], rfl, rfl, rfl, by simp⟩
    | case2 lexemes v rest' hread vs' last hmore ih =>
        cases hmany
        obtain ⟨hnone, used, parts, rfl, htokens, rfl, hparts⟩ := ih hmore
        obtain ⟨first, tokens, rfl, hfirst, hderives⟩ := (h _ _ _).mp hread
        refine ⟨hnone, first ++ used, (tokens, v) :: parts, by simp, ?_, rfl, ?_⟩
        · simp [hfirst, htokens]
        · exact List.forall_mem_cons.mpr ⟨hderives, hparts⟩
  · rintro ⟨hnone, used, parts, rfl, htokens, rfl, hparts⟩
    induction parts generalizing used with
    | nil =>
        obtain rfl : used = [] := by simpa using htokens
        rw [many]
        split
        · rfl
        · next hread => simp [hnone] at hread
    | cons part parts ih =>
        rw [List.flatMap_cons] at htokens
        obtain ⟨first, others, rfl, hfirst, hothers⟩ := List.map_eq_append_iff.mp htokens
        obtain ⟨hpart, hparts⟩ := List.forall_mem_cons.mp hparts
        have hread : one.read (first ++ (others ++ rest)) = some (part.2, others ++ rest) :=
          (h _ _ _).mpr ⟨first, part.1, rfl, hfirst, hpart⟩
        rw [List.append_assoc, many]
        split
        · next hnone => simp [hread] at hnone
        · next v rest' hread' =>
            rw [hread] at hread'
            cases hread'
            rw [ih others hothers hparts]
            rfl

theorem Exact.read_eq_none (h : item.Exact levels) {token : Token}
    (htoken : token ∈ [Token.blank, .dot, .rparen]) (p : Position) (rest : List Lexeme) :
    item.read (⟨token, p⟩ :: rest) = none := by
  rw [Option.eq_none_iff_forall_ne_some]
  rintro ⟨v, rest'⟩ hread
  obtain ⟨used, hused, hderives⟩ := (h _ _ _).mp hread
  obtain ⟨token', more, htokens, hmem⟩ := hderives.head_not_mem
  obtain ⟨lexeme, others, rfl, rfl, -⟩ := List.map_eq_cons_iff.mp htokens
  obtain ⟨rfl, -⟩ := List.cons.inj hused
  exact hmem htoken

/-- Up to a closing parenthesis all elements are read, and there are as many as there can be. -/
theorem Exact.separated_eq_iff (h : item.Exact levels) {vs : List Value} {p : Position} :
    item.separated lexemes = (vs, ⟨.rparen, p⟩ :: rest) ↔
      ∃ (used : List Lexeme) (parts : List Part), lexemes = used ++ ⟨.rparen, p⟩ :: rest ∧
        used.map Lexeme.token = separatedParts parts ∧ vs = parts.map Prod.snd ∧
        ∀ part ∈ parts, Derives levels part.1 part.2 := by
  unfold separated
  constructor
  · intro hseparated
    split at hseparated
    · obtain ⟨rfl, rfl⟩ := Prod.mk.inj hseparated
      exact ⟨[], [], rfl, rfl, rfl, by simp⟩
    · next v more hitem =>
        obtain ⟨first, rfl, hfirst⟩ := (h _ _ _).mp hitem
        rcases hmany : item.afterBlank.many more with ⟨others, last⟩
        rw [hmany] at hseparated
        obtain ⟨rfl, rfl⟩ := Prod.mk.inj hseparated
        obtain ⟨-, used, parts, rfl, htokens, rfl, hparts⟩ := h.afterBlank.many_eq_iff.mp hmany
        refine ⟨first ++ used, (first.map Lexeme.token, v) :: parts, by simp, ?_, rfl, ?_⟩
        · rw [List.map_append, htokens]
          rfl
        · exact List.forall_mem_cons.mpr ⟨hfirst, hparts⟩
  · rintro ⟨used, parts, rfl, htokens, rfl, hparts⟩
    cases parts with
    | nil =>
        obtain rfl : used = [] := by simpa [separatedParts] using htokens
        rw [List.nil_append, h.read_eq_none (by simp)]
        rfl
    | cons part parts =>
        obtain ⟨hpart, hparts⟩ := List.forall_mem_cons.mp hparts
        obtain ⟨first, others, rfl, hfirst, hothers⟩ := List.map_eq_append_iff.mp htokens
        have hitem : item.read (first ++ (others ++ ⟨.rparen, p⟩ :: rest)) = some (part.2, _) :=
          (h _ _ _).mpr ⟨first, rfl, hfirst ▸ hpart⟩
        have hmany : item.afterBlank.many (others ++ ⟨.rparen, p⟩ :: rest) = _ :=
          h.afterBlank.many_eq_iff.mpr ⟨rfl, others, parts, rfl, hothers, rfl, hparts⟩
        rw [List.append_assoc, hitem]
        simp only [hmany]
        rfl

theorem Exact.properList_eq_some_iff (h : item.Exact levels) :
    properList item lexemes = some (v, rest) ↔ (∃ items, v = .list items) ∧
      ∃ used, lexemes = used ++ rest ∧
        Derives (levels + 1) (.lparen :: used.map Lexeme.token) v := by
  constructor
  · intro hproper
    rcases hseparated : item.separated lexemes with ⟨items, last⟩
    rw [properList, hseparated] at hproper
    obtain ⟨rest', hclose, hlist⟩ := Option.bind_eq_some_iff.mp hproper
    obtain ⟨rfl, rfl⟩ := Prod.mk.inj (Option.some.inj hlist)
    obtain ⟨p, rfl⟩ := expect_eq_some_iff.mp hclose
    obtain ⟨used, parts, rfl, htokens, rfl, hparts⟩ := h.separated_eq_iff.mp hseparated
    refine ⟨⟨_, rfl⟩, used ++ [⟨.rparen, p⟩], by simp, ?_⟩
    have hderives := Derives.list_of_parts hparts
    simpa [htokens] using hderives
  · rintro ⟨⟨items, rfl⟩, used, rfl, hderives⟩
    obtain ⟨parts, htokens, rfl, hparts⟩ := hderives.list_inv
    obtain ⟨inside, closing, rfl, hinside, hclosing⟩ := List.map_eq_append_iff.mp htokens
    obtain ⟨⟨token, p⟩, rfl, rfl⟩ := List.map_eq_singleton_iff.mp hclosing
    have hseparated : item.separated (inside ++ ⟨.rparen, p⟩ :: rest) = _ :=
      h.separated_eq_iff.mpr ⟨inside, parts, rfl, hinside, rfl, hparts⟩
    rw [properList, List.append_assoc, List.singleton_append, hseparated]
    exact Option.bind_eq_some_iff.mpr ⟨rest, expect_cons_self .rparen p rest, rfl⟩

theorem Exact.dottedList_eq_some_iff (h : item.Exact levels) :
    dottedList item lexemes = some (v, rest) ↔ (∃ head tail, v = .dotted head tail) ∧
      ∃ used, lexemes = used ++ rest ∧
        Derives (levels + 1) (.lparen :: used.map Lexeme.token) v := by
  constructor
  · intro hdotted
    rcases hmany : item.beforeBlank.many lexemes with ⟨head, last⟩
    rw [dottedList, hmany] at hdotted
    obtain ⟨afterDot, hdot, hdotted⟩ := Option.bind_eq_some_iff.mp hdotted
    obtain ⟨afterBlank, hblank, hdotted⟩ := Option.bind_eq_some_iff.mp hdotted
    obtain ⟨⟨tail, afterTail⟩, htail, hdotted⟩ := Option.bind_eq_some_iff.mp hdotted
    obtain ⟨rest', hclose, hdotted⟩ := Option.bind_eq_some_iff.mp hdotted
    obtain ⟨rfl, rfl⟩ := Prod.mk.inj (Option.some.inj hdotted)
    obtain ⟨dot, rfl⟩ := expect_eq_some_iff.mp hdot
    obtain ⟨blank, rfl⟩ := expect_eq_some_iff.mp hblank
    obtain ⟨close, rfl⟩ := expect_eq_some_iff.mp hclose
    obtain ⟨inner, rfl, hinner⟩ := (h _ _ _).mp htail
    obtain ⟨-, used, parts, rfl, htokens, rfl, hparts⟩ := h.beforeBlank.many_eq_iff.mp hmany
    refine ⟨⟨_, _, rfl⟩, used ++ ⟨.dot, dot⟩ :: ⟨.blank, blank⟩ :: inner ++ [⟨.rparen, close⟩],
      by simp, ?_⟩
    have hderives := Derives.dotted hparts hinner
    simpa [htokens, closedParts] using hderives
  · rintro ⟨⟨head, tail, rfl⟩, used, rfl, hderives⟩
    obtain ⟨parts, tokens, htokens, rfl, hparts, htail⟩ := hderives.dotted_inv
    obtain ⟨front, closing, rfl, hfront, hclosing⟩ := List.map_eq_append_iff.mp htokens
    obtain ⟨⟨token, close⟩, rfl, rfl⟩ := List.map_eq_singleton_iff.mp hclosing
    obtain ⟨before, others, rfl, hbefore, hothers⟩ := List.map_eq_append_iff.mp hfront
    obtain ⟨⟨token, dot⟩, others, rfl, rfl, hafter⟩ := List.map_eq_cons_iff.mp hothers
    obtain ⟨⟨token, blank⟩, inner, rfl, rfl, rfl⟩ := List.map_eq_cons_iff.mp hafter
    -- Where the dot stands no element can be read, so the elements end there.
    have hstop (last : List Lexeme) : item.beforeBlank.read (⟨.dot, dot⟩ :: last) = none := by
      change (item.read (⟨.dot, dot⟩ :: last)).bind _ = none
      rw [h.read_eq_none (by simp)]
      rfl
    have hmany := h.beforeBlank.many_eq_iff.mpr
      ⟨hstop (⟨.blank, blank⟩ :: (inner ++ ⟨.rparen, close⟩ :: rest)), before, parts, rfl, hbefore,
        rfl, hparts⟩
    have hitem : item.read (inner ++ ⟨.rparen, close⟩ :: rest) = some (tail, _) :=
      (h _ _ _).mpr ⟨inner, rfl, htail⟩
    simp only [dottedList, List.append_assoc, List.cons_append, List.nil_append, hmany]
    refine Option.bind_eq_some_iff.mpr ⟨_, expect_cons_self .dot dot _, ?_⟩
    refine Option.bind_eq_some_iff.mpr ⟨_, expect_cons_self .blank blank _, ?_⟩
    refine Option.bind_eq_some_iff.mpr ⟨_, hitem, ?_⟩
    exact Option.bind_eq_some_iff.mpr ⟨_, expect_cons_self .rparen close rest, rfl⟩

theorem leaf_eq_some_iff :
    leaf lexemes = some (v, rest) ↔ ∃ lexeme, lexemes = lexeme :: rest ∧
      Derives 0 [lexeme.token] v := by
  constructor
  · intro h
    unfold leaf at h
    split at h
    · split at h
      · cases h
        exact ⟨_, rfl, .truth⟩
      · cases h
        exact ⟨_, rfl, .falsity⟩
      · next htrue hfalse =>
          cases h
          exact ⟨_, rfl, .atom htrue hfalse⟩
    · cases h
      exact ⟨_, rfl, .string⟩
    · cases h
      exact ⟨_, rfl, .number⟩
    · cases h
  · rintro ⟨⟨token, p⟩, rfl, hderives⟩
    cases hderives with
    | truth => rfl
    | falsity => rfl
    | atom htrue hfalse => simp [leaf]
    | string => rfl
    | number => rfl

/-- A proper list and a dotted list never begin with the same tokens, so it makes no difference to a
dotted list that a proper list is tried first. -/
theorem Exact.properList_eq_none (h : item.Exact levels)
    (hdotted : dottedList item lexemes = some (v, rest)) : properList item lexemes = none := by
  rw [Option.eq_none_iff_forall_ne_some]
  rintro ⟨w, rest'⟩ hproper
  obtain ⟨⟨head, tail, rfl⟩, used, rfl, hderives⟩ := h.dottedList_eq_some_iff.mp hdotted
  obtain ⟨⟨items, rfl⟩, used', hused, hderives'⟩ := h.properList_eq_some_iff.mp hproper
  have hunique := @Derives.unique (levels + 1) (⟨.lparen, .start⟩ :: used) rest _
    (⟨.lparen, .start⟩ :: used') rest' _ hderives hderives' (congrArg _ hused)
  cases hunique.2.2

theorem exists_derives_cons_iff {lexeme : Lexeme} :
    (∃ used, lexeme :: lexemes = used ++ rest ∧ Derives levels (used.map Lexeme.token) v) ↔
      ∃ used, lexemes = used ++ rest ∧
        Derives levels (lexeme.token :: used.map Lexeme.token) v := by
  constructor
  · rintro ⟨used, hused, hderives⟩
    cases used with
    | nil =>
        obtain ⟨token, more, hnil, -⟩ := hderives.head_not_mem
        cases hnil
    | cons first used =>
        obtain ⟨rfl, rfl⟩ := List.cons.inj hused
        exact ⟨used, rfl, hderives⟩
  · rintro ⟨used, rfl, hderives⟩
    exact ⟨lexeme :: used, rfl, hderives⟩

theorem leaf_eq_some_iff_derives
    (h : levels = 0 ∨ ∀ lexeme ∈ lexemes.head?, lexeme.token ∉ [Token.quote, .lparen]) :
    leaf lexemes = some (v, rest) ↔
      ∃ used, lexemes = used ++ rest ∧ Derives levels (used.map Lexeme.token) v := by
  rw [leaf_eq_some_iff]
  constructor
  · rintro ⟨lexeme, rfl, hderives⟩
    have hdepth := Nat.le_trans hderives.depth_le (Nat.zero_le levels)
    exact ⟨[lexeme], rfl, hderives.of_depth_le hdepth⟩
  · rintro ⟨used, rfl, hderives⟩
    obtain ⟨token, more, hused, -⟩ := hderives.head_not_mem
    obtain ⟨lexeme, others, rfl, -, -⟩ := List.map_eq_cons_iff.mp hused
    obtain ⟨hothers, hleaf⟩ := Derives.leaf_inv hderives (h.imp_right fun hhead => hhead lexeme rfl)
    obtain rfl := List.map_eq_nil_iff.mp hothers
    exact ⟨lexeme, rfl, hleaf⟩

theorem Exact.form_eq_some_iff (h : item.Exact levels) :
    form item lexemes = some (v, rest) ↔
      ∃ used, lexemes = used ++ rest ∧ Derives (levels + 1) (used.map Lexeme.token) v := by
  unfold form
  split
  · next p inner =>
      rw [exists_derives_cons_iff]
      constructor
      · intro hquote
        obtain ⟨⟨w, last⟩, hitem, hquote⟩ := Option.bind_eq_some_iff.mp hquote
        obtain ⟨rfl, rfl⟩ := Prod.mk.inj (Option.some.inj hquote)
        obtain ⟨used, rfl, hderives⟩ := (h _ _ _).mp hitem
        exact ⟨used, rfl, hderives.quote⟩
      · rintro ⟨used, rfl, hderives⟩
        obtain ⟨w, rfl, hw⟩ := hderives.quote_inv
        have hitem := (h (used ++ rest) w rest).mpr ⟨used, rfl, hw⟩
        exact Option.bind_eq_some_iff.mpr ⟨_, hitem, rfl⟩
  · next p inner =>
      rw [exists_derives_cons_iff, Option.or_eq_some_iff]
      constructor
      · rintro (hproper | ⟨-, hdotted⟩)
        · exact (h.properList_eq_some_iff.mp hproper).2
        · exact (h.dottedList_eq_some_iff.mp hdotted).2
      · rintro ⟨used, hlexemes, hderives⟩
        rcases hderives.lparen_inv with hlist | hpair
        · exact .inl (h.properList_eq_some_iff.mpr ⟨hlist, used, hlexemes, hderives⟩)
        · -- The first attempt comes before the second, so it has to fail on a pair.
          have hdotted := h.dottedList_eq_some_iff.mpr ⟨hpair, used, hlexemes, hderives⟩
          exact .inr ⟨h.properList_eq_none hdotted, hdotted⟩
  · next hquote hparen =>
      refine leaf_eq_some_iff_derives (.inr ?_)
      rintro ⟨token, p⟩ hhead hmem
      obtain ⟨inner, rfl⟩ := List.head?_eq_some_iff.mp hhead
      obtain rfl | rfl : token = .quote ∨ token = .lparen := by simpa using hmem
      · exact hquote p inner rfl
      · exact hparen p inner rfl

theorem exact_expression (levels : Nat) : (expression levels).Exact levels := by
  induction levels with
  | zero => exact fun lexemes v rest => leaf_eq_some_iff_derives (.inl rfl)
  | succ levels ih => exact fun lexemes v rest => ih.form_eq_some_iff

end Attempt

/-- The reader that takes each token once succeeds where the reader that goes back succeeds, with
the same value and the same tokens left. -/
theorem readExpression_eq_ok_iff_backtracking (limit : Nat) (stop : Position)
    (lexemes rest : List Lexeme) (v : Value) :
    readExpression (.top limit stop) lexemes = (.ok v, rest) ↔
      (Attempt.expression limit).read lexemes = some (v, rest) := by
  rw [Attempt.exact_expression limit lexemes v rest]
  constructor
  · exact derives_of_readExpression
  · rintro ⟨used, rfl, hderives⟩
    exact readExpression_of_derives hderives

end MiniLisp
