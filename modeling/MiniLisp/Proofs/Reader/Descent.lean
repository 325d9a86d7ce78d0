import MiniLisp.Proofs.Reader.Progress

/-!
A third reader, which works downwards: reading a form calls for the expressions inside it, and the
tokens come from a cursor. The cursor hands out the next token, or looks whether it is a certain one
and hands it out only then, and it writes down every such request.

The reader that keeps open forms on a stack does the same. To compare them, a state of the stack is
carried along with the calls: a call follows the state if it ends, and the state leads to what the
call ends with, after the same tokens. Nothing in a call says that the calls inside it come to an
end, so how deep they may go is a bound from outside, and the comparison shows which bound is enough.
-/

namespace MiniLisp

theorem Scope.stop_of_enter {scope inner : Scope} {p : Position} (h : scope.enter p = .ok inner) :
    inner.stop = scope.stop := by
  unfold enter at h
  split at h <;> cases h
  rfl

namespace Descent

open Reader

/-- What a cursor is asked for, and what comes of it. -/
inductive Request where
  | taken (lexeme : Lexeme)
  /-- The next token is looked at and stays where it is. -/
  | seen (lexeme : Lexeme)
  | denied

structure Cursor where
  left : List Lexeme
  requests : List Request

/-- A computation at a cursor. It may fail, which does not move the cursor back, and it may have no
outcome at all. -/
abbrev Parser (α : Type) : Type :=
  ExceptT ParseError (StateT Cursor Option) α

def next (stop : Position) : Parser Lexeme := fun cursor =>
  match cursor.left with
  | [] => some (.error ⟨.unexpectedEnd, stop⟩, ⟨[], cursor.requests ++ [.denied]⟩)
  | lexeme :: left => some (.ok lexeme, ⟨left, cursor.requests ++ [.taken lexeme]⟩)

def nextIs (token : Token) : Parser Bool := fun cursor =>
  match cursor.left with
  | [] => some (.ok false, ⟨[], cursor.requests ++ [.denied]⟩)
  | lexeme :: left =>
      if lexeme.token = token then
        some (.ok true, ⟨left, cursor.requests ++ [.taken lexeme]⟩)
      else some (.ok false, ⟨lexeme :: left, cursor.requests ++ [.seen lexeme]⟩)

def expect (stop : Position) (token : Token) (name : String) : Parser Unit := do
  let lexeme ← next stop
  if lexeme.token = token then return () else throw (unexpected name lexeme)

inductive Goal where
  | expression
  /-- What follows the elements `read` of a list and the white space after them. -/
  | elements (read : List Value)
  | tail (read : List Value)

/-- What a call does, in terms of the calls inside it. -/
def layer (call : Scope → Goal → Parser Value) (scope : Scope) : Goal → Parser Value
  | .expression => do
      let lexeme ← next scope.stop
      match lexeme.token with
      | .symbol name => return symbolValue name
      | .string contents => return .string contents
      | .number n => return .number n
      | .quote => do
          let inner ← MonadExcept.ofExcept (scope.enter lexeme.position)
          let v ← call inner .expression
          return v.quoted
      | .lparen => do
          let inner ← MonadExcept.ofExcept (scope.enter lexeme.position)
          if ← nextIs .rparen then return .list [] else call inner (.elements [])
      | _ => throw (unexpected "an expression" lexeme)
  | .elements read => do
      if ← nextIs .dot then call scope (.tail read)
      else
        let v ← call scope .expression
        let lexeme ← next scope.stop
        match lexeme.token with
        | .rparen => return .list (read ++ [v])
        | .blank => call scope (.elements (read ++ [v]))
        | _ => throw (unexpected "whitespace or ')'" lexeme)
  | .tail read => do
      expect scope.stop .blank "whitespace"
      let v ← call scope .expression
      expect scope.stop .rparen "')'"
      return .dotted read v

/-- A call that goes at most `depth` calls deep, and has no outcome if that is not enough. -/
def call : Nat → Scope → Goal → Parser Value
  | 0, _, _ => fun _ => none
  | depth + 1, scope, goal => layer (call depth) scope goal

/-! ### Keeping account of requests -/

def Request.token? : Request → Option Lexeme
  | taken lexeme => some lexeme
  | seen _ => none
  | denied => none

def handedOut (requests : List Request) : List Lexeme :=
  requests.filterMap Request.token?

/-- `Accounts stop lexemes made outcome rest` says that the requests `made` account for an outcome
and for the tokens that are left: nothing is gone but what was handed out, what was looked at was
there, and the tokens have come to an end if and only if the outcome says so. -/
structure Accounts (stop : Position) (lexemes : List Lexeme) (made : List Request)
    (outcome : Except ParseError Value) (rest : List Lexeme) : Prop where
  handedOut_append : handedOut made ++ rest = lexemes
  seen_mem : ∀ lexeme, .seen lexeme ∈ made → lexeme ∈ lexemes
  denied_mem_iff : .denied ∈ made ↔ outcome = .error ⟨.unexpectedEnd, stop⟩

variable {stop : Position} {lexemes rest left : List Lexeme} {made more : List Request}
  {outcome : Except ParseError Value} {v : Value} {e : ParseError}

namespace Accounts

theorem nil (h : outcome ≠ .error ⟨.unexpectedEnd, stop⟩) :
    Accounts stop lexemes [] outcome lexemes :=
  ⟨rfl, by simp, by simpa using h⟩

theorem taken {lexeme : Lexeme} (h : Accounts stop lexemes made outcome rest) :
    Accounts stop (lexeme :: lexemes) (.taken lexeme :: made) outcome rest where
  handedOut_append := congrArg (lexeme :: ·) h.handedOut_append
  seen_mem u hu := by
    have hu : Request.seen u ∈ made := by simpa using hu
    exact List.mem_cons_of_mem lexeme (h.seen_mem u hu)
  denied_mem_iff := by simpa using h.denied_mem_iff

theorem seen {lexeme : Lexeme} (h : Accounts stop (lexeme :: lexemes) made outcome rest) :
    Accounts stop (lexeme :: lexemes) (.seen lexeme :: made) outcome rest where
  handedOut_append := h.handedOut_append
  seen_mem u hu := by
    rcases List.mem_cons.mp hu with hu | hu
    · cases hu
      exact List.mem_cons_self
    · exact h.seen_mem u hu
  denied_mem_iff := by simpa using h.denied_mem_iff

theorem denied (n : Nat) : Accounts stop [] (List.replicate (n + 1) .denied)
    (.error ⟨.unexpectedEnd, stop⟩) [] where
  handedOut_append := by simp [handedOut, Request.token?]
  seen_mem := by simp
  denied_mem_iff := by simp

theorem append (h : Accounts stop lexemes made (.ok v) left)
    (hmore : Accounts stop left more outcome rest) :
    Accounts stop lexemes (made ++ more) outcome rest where
  handedOut_append := by
    rw [handedOut, List.filterMap_append, List.append_assoc, ← h.handedOut_append,
      ← hmore.handedOut_append]
    rfl
  seen_mem u hu := by
    rcases List.mem_append.mp hu with hu | hu
    · exact h.seen_mem u hu
    · rw [← h.handedOut_append]
      exact List.mem_append_right _ (hmore.seen_mem u hu)
  denied_mem_iff := by
    have hmade : Request.denied ∉ made := by simp [h.denied_mem_iff]
    rw [List.mem_append, ← hmore.denied_mem_iff]
    simp [hmade]

theorem length_le (h : Accounts stop lexemes made outcome rest) : rest.length ≤ lexemes.length := by
  rw [← h.handedOut_append, List.length_append]
  exact Nat.le_add_left _ _

end Accounts

/-! ### Following a state of the stack -/

def NotNext (token : Token) (lexemes : List Lexeme) : Prop :=
  ∀ lexeme rest, lexemes = lexeme :: rest → lexeme.token ≠ token

theorem bind_of_ok {α β : Type} {p : Parser α} {k : α → Parser β} {cursor cursor' : Cursor} {a : α}
    (h : p cursor = some (.ok a, cursor')) : (p >>= k) cursor = k a cursor' := by
  change (p cursor).bind (fun r => ExceptT.bindCont k r.1 r.2) = _
  rw [h]
  rfl

theorem bind_of_error {α β : Type} {p : Parser α} {k : α → Parser β} {cursor cursor' : Cursor}
    (h : p cursor = some (.error e, cursor')) : (p >>= k) cursor = some (.error e, cursor') := by
  change (p cursor).bind (fun r => ExceptT.bindCont k r.1 r.2) = _
  rw [h]
  rfl

/-- Goes on from what the token before has led to. -/
def proceed (state : Except ParseError Step) (rest : List Lexeme) :
    Except ParseError Value × List Lexeme :=
  match state with
  | .error e => (.error e, rest)
  | .ok step => step.resume rest

theorem run_cons_eq_proceed (reader : Reader) (lexeme : Lexeme) (rest : List Lexeme) :
    reader.run (lexeme :: rest) = proceed (reader.step lexeme) rest := by
  cases hstep : reader.step lexeme with
  | error e => rw [run, hstep]; rfl
  | ok step => exact run_cons hstep rest

/-- `Follows stop p lexemes state finish` says that `p` ends whenever these tokens are left, with a
proper account of its requests, and that the stack comes from `state` to where `finish` takes it
with the value that `p` ends with, or fails as `p` does, over the same tokens. -/
def Follows (stop : Position) (p : Parser Value) (lexemes : List Lexeme)
    (state : Except ParseError Step) (finish : Value → Step) : Prop :=
  ∀ requests, ∃ made outcome rest,
    p ⟨lexemes, requests⟩ = some (outcome, ⟨rest, requests ++ made⟩) ∧
      Accounts stop lexemes made outcome rest ∧
      proceed state lexemes = proceed (outcome.map finish) rest

/-- `Starves stop p` says that `p` without any token asks for one in vain, and fails for that. -/
def Starves (stop : Position) (p : Parser Value) : Prop :=
  ∀ requests, ∃ n, p ⟨[], requests⟩ =
    some (.error ⟨.unexpectedEnd, stop⟩, ⟨[], requests ++ List.replicate (n + 1) .denied⟩)

section Rules

variable {finish finish' : Value → Step} {reader : Reader} {state : Except ParseError Step}
  {p : Parser Value}

theorem starves_next (k : Lexeme → Parser Value) : Starves stop (next stop >>= k) :=
  fun _ => ⟨0, bind_of_error rfl⟩

theorem starves_nextIs {token : Token} {k : Bool → Parser Value} (h : Starves stop (k false)) :
    Starves stop (nextIs token >>= k) := by
  intro requests
  obtain ⟨n, hn⟩ := h (requests ++ [.denied])
  refine ⟨n + 1, ?_⟩
  rw [bind_of_ok (p := nextIs token) rfl, hn, List.append_assoc]
  rfl

theorem starves_expect (token : Token) (name : String) (k : Unit → Parser Value) :
    Starves stop (expect stop token name >>= k) := by
  rw [expect, bind_assoc]
  exact starves_next _

theorem Starves.bind (h : Starves stop p) (k : Value → Parser Value) : Starves stop (p >>= k) := by
  intro requests
  obtain ⟨n, hn⟩ := h requests
  exact ⟨n, bind_of_error hn⟩

theorem Starves.follows (h : Starves stop p) (hstop : reader.scope.stop = stop) :
    Follows stop p [] (.ok (.more reader)) finish := by
  intro requests
  obtain ⟨n, hn⟩ := h requests
  refine ⟨_, _, _, hn, .denied n, ?_⟩
  rw [← hstop]
  rfl

theorem follows_pure (h : state = .ok (finish v)) : Follows stop (pure v) lexemes state finish := by
  intro requests
  refine ⟨[], .ok v, lexemes, ?_, .nil nofun, by rw [h]; rfl⟩
  rw [List.append_nil]
  rfl

theorem follows_throw (h : state = .error e) (hcause : e.cause ≠ .unexpectedEnd) :
    Follows stop (throw e) lexemes state finish := by
  intro requests
  refine ⟨[], .error e, lexemes, ?_, .nil ?_, by rw [h]; rfl⟩
  · rw [List.append_nil]
    rfl
  · rintro ⟨rfl⟩
    exact hcause rfl

theorem follows_unexpected {name : String} {lexeme : Lexeme}
    (h : state = .error (unexpected name lexeme)) :
    Follows stop (throw (unexpected name lexeme)) lexemes state finish :=
  follows_throw h (by simp [unexpected])

theorem Follows.bind {k : Value → Parser Value} (h : Follows stop p lexemes state finish)
    (hk : ∀ v rest, rest.length ≤ lexemes.length →
      Follows stop (k v) rest (.ok (finish v)) finish') :
    Follows stop (p >>= k) lexemes state finish' := by
  intro requests
  obtain ⟨made, outcome, rest, hp, haccounts, hproceed⟩ := h requests
  cases outcome with
  | error e => exact ⟨made, .error e, rest, bind_of_error hp, haccounts, hproceed⟩
  | ok v =>
      obtain ⟨more, outcome, last, hv, hmore, hlast⟩ :=
        hk v rest haccounts.length_le (requests ++ made)
      refine ⟨made ++ more, outcome, last, ?_, haccounts.append hmore, hproceed.trans hlast⟩
      rw [bind_of_ok hp, hv, List.append_assoc]

/-- Taking a token is a step of the stack. -/
theorem follows_of_taken {after : Parser Value} {lexeme : Lexeme}
    (hp : ∀ requests, p ⟨lexeme :: lexemes, requests⟩ =
      after ⟨lexemes, requests ++ [.taken lexeme]⟩)
    (h : Follows stop after lexemes (reader.step lexeme) finish) :
    Follows stop p (lexeme :: lexemes) (.ok (.more reader)) finish := by
  intro requests
  obtain ⟨made, outcome, rest, hafter, haccounts, hproceed⟩ := h (requests ++ [.taken lexeme])
  refine ⟨.taken lexeme :: made, outcome, rest, ?_, haccounts.taken, ?_⟩
  · rw [hp, hafter, List.append_assoc]
    rfl
  · exact (run_cons_eq_proceed reader lexeme lexemes).trans hproceed

theorem follows_of_seen {after : Parser Value} {lexeme : Lexeme}
    (hp : ∀ requests, p ⟨lexeme :: lexemes, requests⟩ =
      after ⟨lexeme :: lexemes, requests ++ [.seen lexeme]⟩)
    (h : Follows stop after (lexeme :: lexemes) state finish) :
    Follows stop p (lexeme :: lexemes) state finish := by
  intro requests
  obtain ⟨made, outcome, rest, hafter, haccounts, hproceed⟩ := h (requests ++ [.seen lexeme])
  refine ⟨.seen lexeme :: made, outcome, rest, ?_, haccounts.seen, hproceed⟩
  rw [hp, hafter, List.append_assoc]
  rfl

theorem follows_next {k : Lexeme → Parser Value} (hstop : reader.scope.stop = stop)
    (hk : ∀ lexeme rest, lexemes = lexeme :: rest →
      Follows stop (k lexeme) rest (reader.step lexeme) finish) :
    Follows stop (next stop >>= k) lexemes (.ok (.more reader)) finish := by
  cases lexemes with
  | nil => exact (starves_next k).follows hstop
  | cons lexeme rest => exact follows_of_taken (fun _ => bind_of_ok rfl) (hk lexeme rest rfl)

theorem follows_nextIs {token : Token} {k : Bool → Parser Value} (hstop : reader.scope.stop = stop)
    (hnil : lexemes = [] → Starves stop (k false))
    (htrue : ∀ lexeme rest, lexemes = lexeme :: rest → lexeme.token = token →
      Follows stop (k true) rest (reader.step lexeme) finish)
    (hfalse : NotNext token lexemes → Follows stop (k false) lexemes (.ok (.more reader)) finish) :
    Follows stop (nextIs token >>= k) lexemes (.ok (.more reader)) finish := by
  cases lexemes with
  | nil => exact (starves_nextIs (hnil rfl)).follows hstop
  | cons lexeme rest =>
      by_cases htoken : lexeme.token = token
      · exact follows_of_taken (fun _ => bind_of_ok (if_pos htoken)) (htrue lexeme rest rfl htoken)
      · refine follows_of_seen (fun _ => bind_of_ok (if_neg htoken)) (hfalse ?_)
        rintro u us ⟨⟩
        exact htoken

theorem follows_expect {token : Token} {name : String} {k : Unit → Parser Value}
    (hstop : reader.scope.stop = stop)
    (htrue : ∀ lexeme rest, lexemes = lexeme :: rest → lexeme.token = token →
      Follows stop (k ()) rest (reader.step lexeme) finish)
    (hfalse : ∀ lexeme, lexeme.token ≠ token →
      reader.step lexeme = .error (unexpected name lexeme)) :
    Follows stop (expect stop token name >>= k) lexemes (.ok (.more reader)) finish := by
  rw [expect, bind_assoc]
  refine follows_next hstop ?_
  intro lexeme rest hlexemes
  by_cases htoken : lexeme.token = token
  · rw [if_pos htoken, pure_bind]
    exact htrue lexeme rest hlexemes htoken
  · rw [if_neg htoken]
    exact follows_unexpected (hfalse lexeme htoken)

theorem follows_enter {k : Scope → Parser Value} {scope : Scope} {frames : List Frame}
    {frame : Frame} {p : Position}
    (hk : ∀ inner, scope.enter p = .ok inner →
      Follows stop (k inner) lexemes (.ok (.more ⟨inner, frame :: frames, .expression⟩)) finish) :
    Follows stop (MonadExcept.ofExcept (scope.enter p) >>= k) lexemes
      (enter ⟨scope, frames, .expression⟩ frame p) finish := by
  cases henter : scope.enter p with
  | error e =>
      have hreader : enter ⟨scope, frames, .expression⟩ frame p = .error e := by
        rw [enter, henter]
        rfl
      refine follows_throw hreader ?_
      simp [enter_eq_error hreader]
  | ok inner =>
      rw [enter, henter]
      exact hk inner henter

end Rules

/-! ### The two readers -/

/-- If the next token begins no expression, the innermost form does not wait for it either. -/
def Refuses (frames : List Frame) (lexemes : List Lexeme) : Prop :=
  ∀ scope lexeme rest, lexemes = lexeme :: rest → lexeme.token ∈ [Token.rparen, .dot, .blank] →
    step ⟨scope, frames, .expression⟩ lexeme = .error (unexpected "an expression" lexeme)

/-- Only a list waits for such tokens: for a parenthesis in front of its elements, and for a dot. -/
theorem refuses_of_notNext {frames : List Frame}
    (hparen : ∀ outer, frames = .element [] :: outer → NotNext .rparen lexemes)
    (hdot : ∀ read outer, frames = .element read :: outer → NotNext .dot lexemes) :
    Refuses frames lexemes := by
  intro scope lexeme rest hlexemes hmem
  change stepExpression ⟨scope, frames, .expression⟩ lexeme = _
  unfold stepExpression
  split
  case h_6 outer htoken hframes => exact absurd htoken (hparen outer hframes lexeme rest hlexemes)
  case h_7 read outer htoken hframes =>
      exact absurd htoken (hdot read outer hframes lexeme rest hlexemes)
  case h_8 => rfl
  all_goals
    next htoken => simp [htoken] at hmem

namespace Goal

/-- Where the stack stands when a call inside the forms `frames` is to read something. -/
def reader (scope : Scope) (frames : List Frame) : Goal → Reader
  | expression => ⟨scope, frames, .expression⟩
  | elements read => ⟨scope, .element read.reverse :: frames, .expression⟩
  | tail read => ⟨scope, frames, .dot read.reverse⟩

def finish (scope : Scope) (frames : List Frame) : Goal → Value → Step
  | expression, v => deliver scope v frames
  | elements _, v => deliver scope.leave v frames
  | tail _, v => deliver scope.leave v frames

/-- A call is made only where the next token does not close or divide the list around it. -/
def Ready (frames : List Frame) (lexemes : List Lexeme) : Goal → Prop
  | expression => Refuses frames lexemes
  | elements read => read = [] → NotNext .rparen lexemes
  | tail _ => True

/-- How deep the calls go. Reading elements calls for an expression before it takes a token, so
there may be two calls to a token. -/
def depth (lexemes : List Lexeme) : Goal → Nat
  | expression => 2 * lexemes.length + 1
  | elements _ => 2 * lexemes.length + 2
  | tail _ => 2 * lexemes.length + 2

end Goal

/-- `Calls callee depth` says that the calls of `callee` follow the stack if they need not go deeper
than `depth`. -/
structure Calls (callee : Scope → Goal → Parser Value) (depth : Nat) : Prop where
  starves (goal : Goal) (scope : Scope) :
    goal.depth [] ≤ depth → Starves scope.stop (callee scope goal)
  follows (goal : Goal) (lexemes : List Lexeme) (scope : Scope) (frames : List Frame) :
    goal.depth lexemes ≤ depth → goal.Ready frames lexemes →
      Follows scope.stop (callee scope goal) lexemes (.ok (.more (goal.reader scope frames)))
        (goal.finish scope frames)

namespace Calls

variable {callee : Scope → Goal → Parser Value} {depth : Nat} {scope : Scope} {frames : List Frame}

theorem layer_starves (h : Calls callee depth) (goal : Goal) (hdepth : goal.depth [] ≤ depth + 1) :
    Starves scope.stop (layer callee scope goal) := by
  cases goal with
  | expression => exact starves_next _
  | elements read =>
      have hexpression := h.starves .expression scope (Nat.le_of_succ_le_succ hdepth)
      exact starves_nextIs (hexpression.bind _)
  | tail read => exact starves_expect _ _ _

theorem layer_expression (h : Calls callee depth) (hdepth : 2 * lexemes.length + 1 ≤ depth + 1)
    (hready : Refuses frames lexemes) :
    Follows scope.stop (layer callee scope .expression) lexemes
      (.ok (.more ⟨scope, frames, .expression⟩)) (deliver scope · frames) := by
  refine follows_next rfl ?_
  rintro ⟨token, p⟩ rest rfl
  rw [List.length_cons] at hdepth
  cases token with
  | symbol name => exact follows_pure rfl
  | string contents => exact follows_pure rfl
  | number n => exact follows_pure rfl
  | quote =>
      refine follows_enter ?_
      intro inner henter
      have hinner : Goal.expression.depth rest ≤ depth := by
        rw [Goal.depth]
        omega
      have hrefuses : Refuses (.quote :: frames) rest := refuses_of_notNext (by simp) (by simp)
      have hfollows := h.follows .expression rest inner _ hinner hrefuses
      rw [← Scope.stop_of_enter henter]
      refine hfollows.bind ?_
      intro v last _
      refine follows_pure ?_
      rw [Goal.finish, deliver, Scope.leave_of_enter henter]
  | lparen =>
      refine follows_enter ?_
      intro inner henter
      have hinner : (Goal.elements []).depth rest ≤ depth := by
        rw [Goal.depth]
        omega
      rw [← Scope.stop_of_enter henter, ← Scope.leave_of_enter henter]
      refine follows_nextIs rfl ?_ ?_ ?_
      · rintro rfl
        exact h.starves _ inner hinner
      · rintro ⟨token, q⟩ last rfl rfl
        exact follows_pure rfl
      · intro hne
        exact h.follows _ rest inner frames hinner fun _ => hne
  | rparen => exact follows_unexpected (hready scope _ rest rfl (by simp))
  | dot => exact follows_unexpected (hready scope _ rest rfl (by simp))
  | blank => exact follows_unexpected (hready scope _ rest rfl (by simp))

theorem layer_elements (h : Calls callee depth) {read : List Value}
    (hdepth : 2 * lexemes.length + 2 ≤ depth + 1) (hready : read = [] → NotNext .rparen lexemes) :
    Follows scope.stop (layer callee scope (.elements read)) lexemes
      (.ok (.more ⟨scope, .element read.reverse :: frames, .expression⟩))
      (deliver scope.leave · frames) := by
  have hexpression : Goal.expression.depth lexemes ≤ depth := Nat.le_of_succ_le_succ hdepth
  refine follows_nextIs rfl ?_ ?_ ?_
  · rintro rfl
    exact (h.starves .expression scope hexpression).bind _
  · rintro ⟨token, p⟩ rest rfl rfl
    refine h.follows (.tail read) rest scope frames ?_ trivial
    rw [List.length_cons] at hdepth
    rw [Goal.depth]
    omega
  · intro hdot
    have hrefuses : Refuses (.element read.reverse :: frames) lexemes := by
      refine refuses_of_notNext ?_ fun _ _ _ => hdot
      rintro outer hframes
      exact hready (by simpa using (List.cons.inj hframes).1)
    refine (h.follows .expression lexemes scope _ hexpression hrefuses).bind ?_
    intro v rest hrest
    refine follows_next rfl ?_
    rintro ⟨token, p⟩ last rfl
    cases token with
    | rparen =>
        refine follows_pure ?_
        simp [step]
    | blank =>
        have hlast : (Goal.elements (read ++ [v])).depth last ≤ depth := by
          rw [List.length_cons] at hrest
          rw [Goal.depth]
          omega
        have hfollows := h.follows _ last scope frames hlast (by simp [Goal.Ready])
        rw [Goal.reader, List.reverse_append] at hfollows
        exact hfollows
    | _ => exact follows_unexpected rfl

theorem layer_tail (h : Calls callee depth) (read : List Value)
    (hdepth : 2 * lexemes.length + 2 ≤ depth + 1) :
    Follows scope.stop (layer callee scope (.tail read)) lexemes
      (.ok (.more ⟨scope, frames, .dot read.reverse⟩)) (deliver scope.leave · frames) := by
  refine follows_expect rfl ?_ ?_
  · rintro ⟨token, p⟩ rest rfl rfl
    have hexpression : Goal.expression.depth rest ≤ depth := by
      rw [List.length_cons] at hdepth
      rw [Goal.depth]
      omega
    have hrefuses : Refuses (.tail read.reverse :: frames) rest :=
      refuses_of_notNext (by simp) (by simp)
    refine (h.follows .expression rest scope _ hexpression hrefuses).bind ?_
    intro v last _
    refine follows_expect rfl ?_ ?_
    · rintro ⟨token, q⟩ _ rfl rfl
      refine follows_pure ?_
      change Except.ok (deliver scope.leave (.dotted read.reverse.reverse v) frames) = _
      rw [List.reverse_reverse]
    · rintro ⟨token, q⟩ htoken
      cases token with
      | rparen => exact absurd rfl htoken
      | _ => rfl
  · rintro ⟨token, q⟩ htoken
    cases token with
    | blank => exact absurd rfl htoken
    | _ => rfl

theorem layer (h : Calls callee depth) : Calls (layer callee) (depth + 1) where
  starves goal _ hdepth := h.layer_starves goal hdepth
  follows goal _ _ _ hdepth hready := by
    cases goal with
    | expression => exact h.layer_expression hdepth hready
    | elements read => exact h.layer_elements hdepth hready
    | tail read => exact h.layer_tail read hdepth

end Calls

theorem Goal.depth_pos (goal : Goal) (lexemes : List Lexeme) : 0 < goal.depth lexemes := by
  cases goal <;> exact Nat.succ_pos _

theorem calls_call (depth : Nat) : Calls (call depth) depth := by
  induction depth with
  | zero =>
      refine ⟨fun goal _ hdepth => ?_, fun goal lexemes _ _ hdepth => ?_⟩
      · exact absurd (goal.depth_pos []) (Nat.not_lt.mpr hdepth)
      · exact absurd (goal.depth_pos lexemes) (Nat.not_lt.mpr hdepth)
  | succ depth ih => exact ih.layer

/-- Reading downwards ends for all tokens, as reading with a stack does, with a proper account of
the requests. -/
theorem exists_call_eq {depth : Nat} (scope : Scope) (h : 2 * lexemes.length < depth) :
    ∃ made outcome rest, readExpression scope lexemes = (outcome, rest) ∧
      call depth scope .expression ⟨lexemes, []⟩ = some (outcome, ⟨rest, made⟩) ∧
      Accounts scope.stop lexemes made outcome rest := by
  obtain ⟨made, outcome, rest, hrun, haccounts, hproceed⟩ :=
    (calls_call depth).follows .expression lexemes scope [] h
      (refuses_of_notNext (by simp) (by simp)) []
  refine ⟨made, outcome, rest, ?_, hrun, haccounts⟩
  change proceed (.ok (.more (start scope))) lexemes = _
  refine hproceed.trans ?_
  cases outcome <;> rfl

end Descent

end MiniLisp
