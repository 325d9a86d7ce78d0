import MiniLisp.Text.Literal

/-!
How contents may be spelled between the quotes of a string literal: every character stands either
for itself or behind a backslash. Reading a literal undoes every such spelling and nothing else.
-/

namespace MiniLisp.Text

/-- The escapes: the character after the backslash and the character that is meant. -/
def escapes : List (Char × Char) :=
  [('\\', '\\'), ('"', '"'), ('n', '\n'), ('r', '\r'), ('t', '\t'), (' ', ' ')]

/-- `Escaped contents body` says that `body` spells `contents` between quotes, character by
character, raw or by an escape. -/
inductive Escaped : List Char → List Char → Prop where
  | nil : Escaped [] []
  | raw {c : Char} {contents body : List Char} :
      c ≠ '"' → c ≠ '\\' → Escaped contents body → Escaped (c :: contents) (c :: body)
  | escape {e c : Char} {contents body : List Char} :
      (e, c) ∈ escapes → Escaped contents body → Escaped (c :: contents) ('\\' :: e :: body)

def needsEscape (c : Char) : Bool :=
  c == '"' || c == '\\'

theorem unescape?_eq_some_iff {e c : Char} : unescape? e = some c ↔ (e, c) ∈ escapes := by
  constructor
  · intro h
    unfold unescape? at h
    split at h <;> cases h <;> simp [escapes]
  · intro h
    simp only [escapes, List.mem_cons, Prod.mk.injEq, List.not_mem_nil, or_false] at h
    rcases h with ⟨rfl, rfl⟩ | ⟨rfl, rfl⟩ | ⟨rfl, rfl⟩ | ⟨rfl, rfl⟩ | ⟨rfl, rfl⟩ | ⟨rfl, rfl⟩ <;> rfl

/-- A spelling that is cut off spells something itself, but for a backslash that has lost its
character. -/
theorem Escaped.of_append {contents front rest : List Char} (h : Escaped contents (front ++ rest)) :
    ∃ contents' body, Escaped contents' body ∧ (front = body ∨ front = body ++ ['\\']) := by
  generalize hcs : front ++ rest = cs at h
  induction h generalizing front with
  | nil =>
      obtain ⟨rfl, -⟩ := List.append_eq_nil_iff.mp hcs
      exact ⟨[], [], .nil, .inl rfl⟩
  | @raw c contents body hquote hbackslash _ ih =>
      match front with
      | [] => exact ⟨[], [], .nil, .inl rfl⟩
      | d :: front =>
          obtain ⟨rfl, hfront⟩ := List.cons.inj hcs
          obtain ⟨contents', body', hbody, hcut⟩ := ih hfront
          refine ⟨d :: contents', d :: body', .raw hquote hbackslash hbody, ?_⟩
          simpa using hcut
  | @escape e c contents body he _ ih =>
      match front with
      | [] => exact ⟨[], [], .nil, .inl rfl⟩
      | [d] =>
          -- The cut goes through the escape.
          obtain ⟨rfl, -⟩ := List.cons.inj hcs
          exact ⟨[], [], .nil, .inr rfl⟩
      | d :: d' :: front =>
          obtain ⟨rfl, htail⟩ := List.cons.inj hcs
          obtain ⟨rfl, hfront⟩ := List.cons.inj htail
          obtain ⟨contents', body', hbody, hcut⟩ := ih hfront
          refine ⟨c :: contents', '\\' :: d' :: body', .escape he hbody, ?_⟩
          simpa using hcut

/-- Contents with a backslash only where there has to be one. -/
def escape (contents : List Char) : List Char :=
  contents.flatMap fun c => if needsEscape c then ['\\', c] else [c]

theorem escaped_escape (contents : List Char) : Escaped contents (escape contents) := by
  induction contents with
  | nil => exact .nil
  | cons c contents ih =>
      rw [escape, List.flatMap_cons]
      cases hc : needsEscape c with
      | true =>
          have hmem : (c, c) ∈ escapes := by
            simp only [needsEscape, Bool.or_eq_true, beq_iff_eq] at hc
            rcases hc with rfl | rfl <;> decide
          exact .escape hmem ih
      | false =>
          simp only [needsEscape, Bool.or_eq_false_iff, beq_eq_false_iff_ne] at hc
          exact .raw hc.1 hc.2 ih

namespace Literal

theorem read_quote (rest : List Char) : read ('"' :: rest) = closed [] ['"'] rest := by
  rw [read]

theorem read_raw {c : Char} (hquote : c ≠ '"') (hbackslash : c ≠ '\\') (rest : List Char) :
    read (c :: rest) = (read rest).cons [c] c := by
  rw [read]
  · exact hquote
  · rintro rfl
    exact absurd rfl hbackslash
  · rintro e more rfl
    exact absurd rfl hbackslash

theorem read_escape {e c : Char} (h : (e, c) ∈ escapes) (rest : List Char) :
    read ('\\' :: e :: rest) = (read rest).cons ['\\', e] c := by
  rw [read, unescape?_eq_some_iff.mpr h]

def append (body contents : List Char) : Literal → Literal
  | closed contents' text rest => closed (contents ++ contents') (body ++ text) rest
  | badEscape before escape => badEscape (body ++ before) escape
  | unclosed => unclosed

theorem read_append_of_escaped {contents body : List Char} (h : Escaped contents body)
    (rest : List Char) : read (body ++ rest) = (read rest).append body contents := by
  induction h with
  | nil => cases hread : read rest <;> simp [hread, append]
  | raw hquote hbackslash _ ih =>
      rw [List.cons_append, read_raw hquote hbackslash, ih]
      cases read rest <;> rfl
  | escape he _ ih =>
      rw [List.cons_append, List.cons_append, read_escape he, ih]
      cases read rest <;> rfl

/-- What ends a run of raw characters and escapes. -/
inductive Obstacle : List Char → Prop where
  | quote (rest : List Char) : Obstacle ('"' :: rest)
  | unknown {e : Char} (rest : List Char) :
      (∀ c, (e, c) ∉ escapes) → Obstacle ('\\' :: e :: rest)
  | backslash : Obstacle ['\\']
  | nil : Obstacle []

/-- Every text is a spelling of something up to its first obstacle. -/
theorem exists_escaped_obstacle (cs : List Char) :
    ∃ contents body rest, cs = body ++ rest ∧ Escaped contents body ∧ Obstacle rest := by
  fun_induction read cs with
  | case1 => exact ⟨[], [], [], rfl, .nil, .nil⟩
  | case2 rest => exact ⟨[], [], _, rfl, .nil, .quote rest⟩
  | case3 => exact ⟨[], [], _, rfl, .nil, .backslash⟩
  | case4 escape rest c hc ih =>
      obtain ⟨contents, body, rest, rfl, hbody, hrest⟩ := ih
      exact ⟨_, _, rest, rfl, .escape (unescape?_eq_some_iff.mp hc) hbody, hrest⟩
  | case5 escape rest hc =>
      refine ⟨[], [], _, rfl, .nil, .unknown rest ?_⟩
      intro c hmem
      rw [unescape?_eq_some_iff.mpr hmem] at hc
      cases hc
  | case6 c rest hquote hend hescape ih =>
      obtain ⟨contents, body, rest, rfl, hbody, hrest⟩ := ih
      have hbackslash : c ≠ '\\' := by
        rintro rfl
        cases hcs : body ++ rest with
        | nil => exact hend rfl hcs
        | cons e more => exact hescape e more rfl hcs
      exact ⟨_, _, rest, rfl, .raw hquote hbackslash hbody, hrest⟩

theorem read_of_escaped {contents body : List Char} (h : Escaped contents body)
    (rest : List Char) : read (body ++ '"' :: rest) = closed contents (body ++ ['"']) rest := by
  rw [read_append_of_escaped h, read_quote]
  simp [append]

theorem read_unknown_of_escaped {contents body : List Char} {e : Char} (h : Escaped contents body)
    (he : ∀ c, (e, c) ∉ escapes) (rest : List Char) :
    read (body ++ '\\' :: e :: rest) = badEscape body e := by
  have hnone : unescape? e = none := by
    rw [Option.eq_none_iff_forall_ne_some]
    intro c hc
    exact he c (unescape?_eq_some_iff.mp hc)
  rw [read_append_of_escaped h, read, hnone]
  simp [append]

theorem read_unclosed_of_escaped {contents body : List Char} (h : Escaped contents body) :
    read body = unclosed ∧ read (body ++ ['\\']) = unclosed := by
  constructor
  · rw [← List.append_nil body, read_append_of_escaped h, read]
    rfl
  · rw [read_append_of_escaped h, read]
    rfl

theorem escaped_of_read {cs contents text rest : List Char}
    (h : read cs = closed contents text rest) :
    ∃ body, text = body ++ ['"'] ∧ Escaped contents body := by
  obtain ⟨contents', body, rest', rfl, hbody, hobstacle⟩ := exists_escaped_obstacle cs
  cases hobstacle with
  | quote rest' =>
      rw [read_of_escaped hbody] at h
      cases h
      exact ⟨body, rfl, hbody⟩
  | unknown rest' he =>
      rw [read_unknown_of_escaped hbody he] at h
      cases h
  | backslash =>
      rw [(read_unclosed_of_escaped hbody).2] at h
      cases h
  | nil =>
      rw [List.append_nil, (read_unclosed_of_escaped hbody).1] at h
      cases h

end Literal

end MiniLisp.Text
