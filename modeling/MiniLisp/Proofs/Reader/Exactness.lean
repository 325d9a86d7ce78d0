import MiniLisp.Proofs.Reader.Grammar

/-!
The reader accepts exactly the grammar. One direction follows a run: at every moment the tokens
taken so far open the forms on the stack and spell what is kept in them, so the value handed out at
the end has a derivation. The other direction follows a derivation and generalises over the stack:
reading the tokens of a value has the effect of handing the value to the forms around it.
-/

namespace MiniLisp

namespace Reader

variable {limit room : Nat} {frames : List Frame} {taken used : List Token} {v : Value}
  {scope : Scope}

/-- `Opens limit frames taken room` says that the tokens `taken` open the forms `frames` and have
read what those keep, and that out of `limit` levels `room` are left in the innermost form. -/
inductive Opens (limit : Nat) : List Frame → List Token → Nat → Prop where
  | nil : Opens limit [] [] limit
  | quote {frames : List Frame} {taken : List Token} {room : Nat} :
      Opens limit frames taken (room + 1) → Opens limit (.quote :: frames) (taken ++ [.quote]) room
  | element {frames : List Frame} {taken : List Token} {room : Nat} {head : List Part} :
      Opens limit frames taken (room + 1) → (∀ part ∈ head, Derives room part.1 part.2) →
        Opens limit (.element (head.map Prod.snd).reverse :: frames)
          (taken ++ .lparen :: closedParts head) room
  | tail {frames : List Frame} {taken : List Token} {room : Nat} {head : List Part} :
      Opens limit frames taken (room + 1) → (∀ part ∈ head, Derives room part.1 part.2) →
        Opens limit (.tail (head.map Prod.snd).reverse :: frames)
          (taken ++ .lparen :: (closedParts head ++ [.dot, .blank])) room

def HasRoom (scope : Scope) (limit room : Nat) : Prop :=
  scope.limit = limit ∧ scope.depth + room = limit

/-- `Took limit reader taken` says that a reader allowed `limit` levels is where it is after the
tokens `taken`. -/
inductive Took (limit : Nat) : Reader → List Token → Prop where
  | expression {scope : Scope} {frames : List Frame} {taken : List Token} {room : Nat} :
      HasRoom scope limit room → Opens limit frames taken room →
        Took limit ⟨scope, frames, .expression⟩ taken
  | separator {scope : Scope} {frames : List Frame} {taken used : List Token} {room : Nat}
      {head : List Part} {v : Value} :
      HasRoom scope limit room → Opens limit frames taken (room + 1) →
      (∀ part ∈ head, Derives room part.1 part.2) → Derives room used v →
        Took limit ⟨scope, frames, .separator (v :: (head.map Prod.snd).reverse)⟩
          (taken ++ .lparen :: (closedParts head ++ used))
  | dot {scope : Scope} {frames : List Frame} {taken : List Token} {room : Nat}
      {head : List Part} :
      HasRoom scope limit room → Opens limit frames taken (room + 1) →
      (∀ part ∈ head, Derives room part.1 part.2) →
        Took limit ⟨scope, frames, .dot (head.map Prod.snd).reverse⟩
          (taken ++ .lparen :: (closedParts head ++ [.dot]))
  | close {scope : Scope} {frames : List Frame} {taken used : List Token} {room : Nat}
      {head : List Part} {v : Value} :
      HasRoom scope limit room → Opens limit frames taken (room + 1) →
      (∀ part ∈ head, Derives room part.1 part.2) → Derives room used v →
        Took limit ⟨scope, frames, .close (head.map Prod.snd).reverse v⟩
          (taken ++ .lparen :: (closedParts head ++ .dot :: .blank :: used))

def Step.Took (limit : Nat) (taken : List Token) : Step → Prop
  | .more reader => reader.Took limit taken
  | .done v => Derives limit taken v

theorem Opens.room_le (h : Opens limit frames taken room) : room ≤ limit := by
  induction h with
  | nil => exact Nat.le_refl _
  | quote _ ih => omega
  | element _ _ ih => omega
  | tail _ _ ih => omega

theorem HasRoom.leave (hroom : HasRoom scope limit room) (h : Opens limit frames taken (room + 1)) :
    HasRoom scope.leave limit (room + 1) := by
  obtain ⟨hlimit, hdepth⟩ := hroom
  have hle := h.room_le
  refine ⟨hlimit, ?_⟩
  simp only [Scope.leave]
  omega

theorem HasRoom.enter {inner : Scope} {p : Position} (hroom : HasRoom scope limit room)
    (h : scope.enter p = .ok inner) : ∃ left, room = left + 1 ∧ HasRoom inner limit left := by
  obtain ⟨hlimit, hdepth⟩ := hroom
  unfold Scope.enter at h
  split at h
  · next hlt =>
      cases h
      refine ⟨room - 1, by omega, hlimit, ?_⟩
      simp only
      omega
  · cases h

theorem took_deliver (hroom : HasRoom scope limit room) (hopens : Opens limit frames taken room)
    (hv : Derives room used v) : (deliver scope v frames).Took limit (taken ++ used) := by
  induction hopens generalizing scope used v with
  | nil => simpa [deliver, Step.Took] using hv
  | @quote frames taken room hopens ih =>
      have hquoted := ih (hroom.leave hopens) hv.quote
      simpa [deliver, Value.quoted] using hquoted
  | element hopens hhead =>
      simpa [deliver, Step.Took] using Took.separator hroom hopens hhead hv
  | tail hopens hhead =>
      simpa [deliver, Step.Took] using Took.close hroom hopens hhead hv

theorem derives_symbolValue (room : Nat) (name : String) :
    Derives room [.symbol name] (symbolValue name) := by
  unfold symbolValue
  split
  · next htrue => exact htrue ▸ .truth
  · next htrue =>
      split
      · next hfalse => exact hfalse ▸ .falsity
      · next hfalse => exact .atom htrue hfalse

/-- The elements that an open list keeps were read from tokens between its parenthesis and here. -/
theorem Opens.element_inv {read : List Value} (h : Opens limit (.element read :: frames) taken room) :
    ∃ head before, read = (head.map Prod.snd).reverse ∧
      taken = before ++ .lparen :: closedParts head ∧ Opens limit frames before (room + 1) ∧
      ∀ part ∈ head, Derives room part.1 part.2 := by
  cases h with
  | @element _ before _ head hopens hhead => exact ⟨head, before, rfl, rfl, hopens, hhead⟩

theorem took_enter {reader : Reader} {frame : Frame} {p : Position} {s : Step}
    (hroom : HasRoom reader.scope limit room)
    (hopens : ∀ left, room = left + 1 → Opens limit (frame :: reader.frames) taken left)
    (h : reader.enter frame p = .ok s) : s.Took limit taken := by
  unfold enter at h
  cases henter : reader.scope.enter p with
  | error e =>
      rw [henter] at h
      cases h
  | ok inner =>
      rw [henter] at h
      cases h
      obtain ⟨left, hleft, hinner⟩ := hroom.enter henter
      exact .expression hinner (hopens left hleft)

theorem took_stepExpression {lexeme : Lexeme} {s : Step} {phase : Phase}
    (hroom : HasRoom scope limit room) (hopens : Opens limit frames taken room)
    (h : stepExpression ⟨scope, frames, phase⟩ lexeme = .ok s) :
    s.Took limit (taken ++ [lexeme.token]) := by
  obtain ⟨token, p⟩ := lexeme
  unfold stepExpression at h
  split at h
  case h_1 name htoken =>
      cases h
      obtain rfl : token = .symbol name := htoken
      exact took_deliver hroom hopens (derives_symbolValue room name)
  case h_2 contents htoken =>
      cases h
      obtain rfl : token = .string contents := htoken
      exact took_deliver hroom hopens .string
  case h_3 n htoken =>
      cases h
      obtain rfl : token = .number n := htoken
      exact took_deliver hroom hopens .number
  case h_4 htoken =>
      obtain rfl : token = .quote := htoken
      refine took_enter hroom ?_ h
      rintro left rfl
      exact hopens.quote
  case h_5 htoken =>
      obtain rfl : token = .lparen := htoken
      refine took_enter hroom ?_ h
      rintro left rfl
      exact @Opens.element limit frames taken left [] hopens (by simp)
  case h_6 frames htoken hframes =>
      cases h
      obtain rfl : token = .rparen := htoken
      subst hframes
      obtain ⟨head, before, hread, rfl, hbefore, -⟩ := hopens.element_inv
      -- Nothing was read yet, so the parentheses are next to each other.
      obtain rfl : head = [] := by simpa using hread.symm
      simpa using took_deliver (hroom.leave hbefore) hbefore Derives.empty
  case h_7 read frames htoken hframes =>
      cases h
      obtain rfl : token = .dot := htoken
      subst hframes
      obtain ⟨head, before, rfl, rfl, hbefore, hhead⟩ := hopens.element_inv
      simpa [Step.Took] using Took.dot hroom hbefore hhead
  case h_8 => cases h

/-- Taking a token keeps account of it. -/
theorem took_step {reader : Reader} {lexeme : Lexeme} {s : Step} (htook : reader.Took limit taken)
    (h : reader.step lexeme = .ok s) : s.Took limit (taken ++ [lexeme.token]) := by
  obtain ⟨token, p⟩ := lexeme
  cases htook with
  | expression hroom hopens => exact took_stepExpression hroom hopens h
  | @separator scope frames before used room head v hroom hopens hhead hv =>
      cases token <;> simp only [step, reduceCtorEq, Except.ok.injEq] at h
      case rparen =>
          subst h
          have hlist := took_deliver (hroom.leave hopens) hopens (Derives.list_snoc hhead hv)
          simpa using hlist
      case blank =>
          subst h
          have hparts : ∀ part ∈ head ++ [(used, v)], Derives room part.1 part.2 := by
            intro part hpart
            rcases List.mem_append.mp hpart with hpart | hpart
            · exact hhead part hpart
            · obtain rfl := List.mem_singleton.mp hpart
              exact hv
          simpa [Step.Took] using Took.expression hroom (hopens.element hparts)
  | @dot scope frames before room head hroom hopens hhead =>
      cases token <;> simp only [step, reduceCtorEq, Except.ok.injEq] at h
      case blank =>
          subst h
          simpa [Step.Took] using Took.expression hroom (hopens.tail hhead)
  | @close scope frames before used room head v hroom hopens hhead hv =>
      cases token <;> simp only [step, reduceCtorEq, Except.ok.injEq] at h
      case rparen =>
          subst h
          have hdotted := took_deliver (hroom.leave hopens) hopens (Derives.dotted hhead hv)
          simpa using hdotted

theorem took_start (limit : Nat) (stop : Position) : (start (.top limit stop)).Took limit [] :=
  .expression ⟨rfl, Nat.zero_add limit⟩ .nil

/-- A run that ends with a value has taken a derivation of it. -/
theorem derives_of_run {reader : Reader} {lexemes rest : List Lexeme}
    (htook : reader.Took limit taken) (h : reader.run lexemes = (.ok v, rest)) :
    ∃ used, lexemes = used ++ rest ∧ Derives limit (taken ++ used.map Lexeme.token) v := by
  induction lexemes generalizing reader taken with
  | nil => simp [run] at h
  | cons lexeme lexemes ih =>
      rw [run] at h
      split at h
      · simp at h
      · next w hstep =>
          simp only [Prod.mk.injEq, Except.ok.injEq] at h
          obtain ⟨rfl, rfl⟩ := h
          exact ⟨[lexeme], rfl, took_step htook hstep⟩
      · next next hstep =>
          obtain ⟨used, rfl, hused⟩ := ih (took_step htook hstep) h
          exact ⟨lexeme :: used, rfl, by simpa using hused⟩

/-- Goes on with the tokens that follow a step. -/
def Step.resume (rest : List Lexeme) : Step → Except ParseError Value × List Lexeme
  | .more reader => reader.run rest
  | .done v => (.ok v, rest)

theorem run_cons {reader : Reader} {lexeme : Lexeme} {s : Step} (h : reader.step lexeme = .ok s)
    (rest : List Lexeme) : reader.run (lexeme :: rest) = s.resume rest := by
  rw [run, h]
  cases s <;> rfl

/-- `Reads levels used v` says that the tokens `used`, wherever an expression is due and `levels`
levels are free, have the effect of handing `v` to the forms around them. -/
def Reads (levels : Nat) (used : List Token) (v : Value) : Prop :=
  ∀ (scope : Scope) (frames : List Frame) (lexemes rest : List Lexeme),
    lexemes.map Lexeme.token = used → scope.depth + levels ≤ scope.limit →
      run ⟨scope, frames, .expression⟩ (lexemes ++ rest) = (deliver scope v frames).resume rest

theorem enter_eq_ok {frame : Frame} {phase : Phase} (p : Position)
    (h : scope.depth < scope.limit) :
    enter ⟨scope, frames, phase⟩ frame p =
      .ok (.more ⟨{ scope with depth := scope.depth + 1 }, frame :: frames, .expression⟩) := by
  simp only [enter, Scope.enter, h, if_true]
  rfl

theorem reads_single {levels : Nat} {token : Token}
    (h : ∀ (scope : Scope) (frames : List Frame) (p : Position),
      step ⟨scope, frames, .expression⟩ ⟨token, p⟩ = .ok (deliver scope v frames)) :
    Reads levels [token] v := by
  intro scope frames lexemes rest htokens _
  obtain ⟨⟨token', p⟩, rfl, htoken⟩ := List.map_eq_singleton_iff.mp htokens
  obtain rfl : token' = token := htoken
  exact run_cons (h scope frames p) rest

theorem reads_quote {levels : Nat} (h : Reads levels used v) :
    Reads (levels + 1) (.quote :: used) v.quoted := by
  intro scope frames lexemes rest htokens hlevels
  obtain ⟨⟨token, p⟩, lexemes, rfl, htoken, hused⟩ := List.map_eq_cons_iff.mp htokens
  obtain rfl : token = .quote := htoken
  have hstep : step ⟨scope, frames, .expression⟩ ⟨.quote, p⟩ = _ := enter_eq_ok p (by omega)
  rw [List.cons_append, run_cons hstep, Step.resume,
    h _ (.quote :: frames) lexemes rest hused (by simp only; omega)]
  rfl

theorem run_openedParts {levels : Nat} {parts : List Part}
    (hparts : ∀ part ∈ parts, Reads levels part.1 part.2) {read : List Value}
    {lexemes rest : List Lexeme} (htokens : lexemes.map Lexeme.token = openedParts parts)
    (hlevels : scope.depth + levels ≤ scope.limit) :
    run ⟨scope, frames, .separator read⟩ (lexemes ++ rest) =
      run ⟨scope, frames, .separator ((parts.map Prod.snd).reverse ++ read)⟩ rest := by
  induction parts generalizing read lexemes with
  | nil =>
      obtain rfl : lexemes = [] := by simpa using htokens
      rfl
  | cons part parts ih =>
      rw [openedParts_cons] at htokens
      obtain ⟨⟨token, p⟩, lexemes, rfl, htoken, hmore⟩ := List.map_eq_cons_iff.mp htokens
      obtain rfl : token = .blank := htoken
      obtain ⟨first, others, rfl, hfirst, hothers⟩ := List.map_eq_append_iff.mp hmore
      have hstep : step ⟨scope, frames, .separator read⟩ ⟨.blank, p⟩ =
          .ok (.more ⟨scope, .element read :: frames, .expression⟩) := rfl
      have hpart := hparts part List.mem_cons_self scope (.element read :: frames) first
        (others ++ rest) hfirst hlevels
      rw [List.cons_append, run_cons hstep, Step.resume, List.append_assoc, hpart, deliver,
        Step.resume, ih (fun q hq => hparts q (List.mem_cons_of_mem _ hq)) hothers]
      simp

theorem run_closedParts {levels : Nat} {parts : List Part}
    (hparts : ∀ part ∈ parts, Reads levels part.1 part.2) {read : List Value}
    {lexemes rest : List Lexeme} (htokens : lexemes.map Lexeme.token = closedParts parts)
    (hlevels : scope.depth + levels ≤ scope.limit) :
    run ⟨scope, .element read :: frames, .expression⟩ (lexemes ++ rest) =
      run ⟨scope, .element ((parts.map Prod.snd).reverse ++ read) :: frames, .expression⟩ rest := by
  induction parts generalizing read lexemes with
  | nil =>
      obtain rfl : lexemes = [] := by simpa using htokens
      rfl
  | cons part parts ih =>
      rw [closedParts_cons] at htokens
      obtain ⟨first, others, rfl, hfirst, hothers⟩ := List.map_eq_append_iff.mp htokens
      obtain ⟨⟨token, p⟩, others, rfl, htoken, hmore⟩ := List.map_eq_cons_iff.mp hothers
      obtain rfl : token = .blank := htoken
      have hpart := hparts part List.mem_cons_self scope (.element read :: frames) first
        (⟨.blank, p⟩ :: others ++ rest) hfirst hlevels
      have hstep : step ⟨scope, frames, .separator (part.2 :: read)⟩ ⟨.blank, p⟩ =
          .ok (.more ⟨scope, .element (part.2 :: read) :: frames, .expression⟩) := rfl
      rw [List.append_assoc, hpart, deliver, Step.resume, List.cons_append, run_cons hstep,
        Step.resume, ih (fun q hq => hparts q (List.mem_cons_of_mem _ hq)) hmore]
      simp

theorem reads_empty {levels : Nat} : Reads (levels + 1) [.lparen, .rparen] (.list []) := by
  intro scope frames lexemes rest htokens hlevels
  obtain ⟨⟨token, p⟩, lexemes, rfl, htoken, hlast⟩ := List.map_eq_cons_iff.mp htokens
  obtain ⟨⟨token', p'⟩, rfl, htoken'⟩ := List.map_eq_singleton_iff.mp hlast
  obtain rfl : token = .lparen := htoken
  obtain rfl : token' = .rparen := htoken'
  have hopen : step ⟨scope, frames, .expression⟩ ⟨.lparen, p⟩ = _ := enter_eq_ok p (by omega)
  rw [List.cons_append, run_cons hopen, Step.resume]
  exact run_cons rfl rest

theorem reads_list {levels : Nat} {more : List Part} (h : Reads levels used v)
    (hmore : ∀ part ∈ more, Reads levels part.1 part.2) :
    Reads (levels + 1) (.lparen :: (used ++ openedParts more ++ [.rparen]))
      (.list (v :: more.map Prod.snd)) := by
  intro scope frames lexemes rest htokens hlevels
  obtain ⟨⟨token, p⟩, lexemes, rfl, htoken, hinner⟩ := List.map_eq_cons_iff.mp htokens
  obtain rfl : token = .lparen := htoken
  obtain ⟨elements, closing, rfl, helements, hclosing⟩ := List.map_eq_append_iff.mp hinner
  obtain ⟨first, others, rfl, hfirst, hothers⟩ := List.map_eq_append_iff.mp helements
  obtain ⟨⟨token, p'⟩, rfl, htoken⟩ := List.map_eq_singleton_iff.mp hclosing
  obtain rfl : token = .rparen := htoken
  have hopen : step ⟨scope, frames, .expression⟩ ⟨.lparen, p⟩ = _ := enter_eq_ok p (by omega)
  have hinside : scope.depth + 1 + levels ≤ scope.limit := by omega
  rw [List.cons_append, run_cons hopen, Step.resume, List.append_assoc, List.append_assoc,
    h _ (.element [] :: frames) first _ hfirst hinside, deliver, Step.resume,
    run_openedParts hmore hothers hinside, List.singleton_append, run_cons rfl]
  simp [Scope.leave]

theorem reads_dotted {levels : Nat} {head : List Part}
    (hhead : ∀ part ∈ head, Reads levels part.1 part.2) (h : Reads levels used v) :
    Reads (levels + 1) (.lparen :: (closedParts head ++ .dot :: .blank :: used ++ [.rparen]))
      (.dotted (head.map Prod.snd) v) := by
  intro scope frames lexemes rest htokens hlevels
  obtain ⟨⟨token, p⟩, lexemes, rfl, htoken, hinner⟩ := List.map_eq_cons_iff.mp htokens
  obtain rfl : token = .lparen := htoken
  obtain ⟨inside, closing, rfl, hinside, hclosing⟩ := List.map_eq_append_iff.mp hinner
  obtain ⟨⟨token, p'⟩, rfl, htoken⟩ := List.map_eq_singleton_iff.mp hclosing
  obtain rfl : token = .rparen := htoken
  obtain ⟨first, others, rfl, hfirst, hothers⟩ := List.map_eq_append_iff.mp hinside
  obtain ⟨⟨token, dot⟩, others, rfl, htoken, hafter⟩ := List.map_eq_cons_iff.mp hothers
  obtain rfl : token = .dot := htoken
  obtain ⟨⟨token, blank⟩, last, rfl, htoken, hlast⟩ := List.map_eq_cons_iff.mp hafter
  obtain rfl : token = .blank := htoken
  have hopen : step ⟨scope, frames, .expression⟩ ⟨.lparen, p⟩ = _ := enter_eq_ok p (by omega)
  have hroom : scope.depth + 1 + levels ≤ scope.limit := by omega
  rw [List.cons_append, run_cons hopen, Step.resume, List.append_assoc, List.append_assoc,
    run_closedParts hhead hfirst hroom, List.cons_append, run_cons rfl, Step.resume,
    List.cons_append, run_cons rfl, Step.resume, h _ _ last _ hlast hroom, deliver, Step.resume,
    List.singleton_append, run_cons rfl]
  simp [Scope.leave]

/-- What the grammar derives is read. -/
theorem reads_of_derives {levels : Nat} (h : Derives levels used v) : Reads levels used v := by
  induction h with
  | truth => exact reads_single fun _ _ _ => rfl
  | falsity => exact reads_single fun _ _ _ => rfl
  | @atom _ name htrue hfalse =>
      refine reads_single fun scope frames p => ?_
      simp [step, stepExpression, symbolValue, htrue, hfalse]
  | string => exact reads_single fun _ _ _ => rfl
  | number => exact reads_single fun _ _ _ => rfl
  | quote _ ih => exact reads_quote ih
  | empty => exact reads_empty
  | list _ _ ih ihmore => exact reads_list ih ihmore
  | dotted _ _ ihhead ih => exact reads_dotted ihhead ih

end Reader

open Reader

variable {limit : Nat} {stop : Position} {lexemes used rest : List Lexeme} {v : Value}

theorem readExpression_of_derives (h : Derives limit (used.map Lexeme.token) v) :
    readExpression (.top limit stop) (used ++ rest) = (.ok v, rest) :=
  reads_of_derives h (.top limit stop) [] used rest rfl (by simp [Scope.top])

theorem derives_of_readExpression
    (h : readExpression (.top limit stop) lexemes = (.ok v, rest)) :
    ∃ used, lexemes = used ++ rest ∧ Derives limit (used.map Lexeme.token) v :=
  derives_of_run (took_start limit stop) h

theorem Derives.unique {used' rest' : List Lexeme} {v' : Value}
    (h : Derives limit (used.map Lexeme.token) v) (h' : Derives limit (used'.map Lexeme.token) v')
    (heq : used ++ rest = used' ++ rest') : used = used' ∧ rest = rest' ∧ v = v' := by
  -- Both are what the reader, which is a function, takes from the front of the same tokens.
  have hread : readExpression (.top limit .start) (used ++ rest) = (.ok v, rest) :=
    readExpression_of_derives h
  rw [heq, readExpression_of_derives h'] at hread
  simp only [Prod.mk.injEq, Except.ok.injEq] at hread
  obtain ⟨rfl, rfl⟩ := hread
  exact ⟨List.append_cancel_right heq, rfl, rfl⟩

/-- The reader accepts exactly the grammar: it gives a value and leaves `rest` precisely when the
tokens before `rest` derive the value within the limit. There is only one such way to divide the
tokens, and what follows an expression, like the end of the source, has no influence on it. -/
theorem readExpression_eq_ok_iff_derives (limit : Nat) (stop : Position)
    (lexemes : List Lexeme) :
    (∀ (v : Value) (rest : List Lexeme),
      readExpression (.top limit stop) lexemes = (.ok v, rest) ↔
        ∃ used, lexemes = used ++ rest ∧ Derives limit (used.map Lexeme.token) v) ∧
    (∀ (used rest used' rest' : List Lexeme) (v v' : Value),
      lexemes = used ++ rest → Derives limit (used.map Lexeme.token) v →
      lexemes = used' ++ rest' → Derives limit (used'.map Lexeme.token) v' →
        used = used' ∧ rest = rest' ∧ v = v') ∧
    (∀ (used rest other : List Lexeme) (stop' : Position) (v : Value),
      lexemes = used ++ rest → readExpression (.top limit stop) lexemes = (.ok v, rest) →
        readExpression (.top limit stop') (used ++ other) = (.ok v, other)) := by
  refine ⟨?_, ?_, ?_⟩
  · intro v rest
    constructor
    · exact derives_of_readExpression
    · rintro ⟨used, rfl, hused⟩
      exact readExpression_of_derives hused
  · intro used rest used' rest' v v' hlexemes h hlexemes' h'
    exact h.unique h' (hlexemes ▸ hlexemes')
  · intro used rest other stop' v hlexemes hread
    obtain ⟨used', hused, hderives⟩ := derives_of_readExpression hread
    obtain rfl : used = used' := List.append_cancel_right (hlexemes ▸ hused)
    exact readExpression_of_derives hderives

end MiniLisp
