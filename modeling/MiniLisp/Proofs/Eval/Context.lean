import MiniLisp.Eval
import MiniLisp.Proofs.Outcome

/-!
Calls and the places in them where evaluation goes on. A call is a list that begins with an atom and
is no quotation; its arguments are evaluated from the left, so it fails at the first argument that
has no result. A context is a value with one place left open that is reached from the outside
through arguments of calls only.
-/

namespace MiniLisp

/-- Whether `name` with these arguments is the form `(quote v)`, whose argument is not evaluated. -/
def IsQuotation (name : String) (args : List Value) : Prop :=
  name = "quote" ∧ args.length = 1

theorem eval_call {name : String} {args : List Value} (h : ¬ IsQuotation name args) :
    eval (.list (.atom name :: args)) = evalAll args >>= apply name := by
  rw [eval]
  rintro v rfl rfl
  exact h ⟨rfl, rfl⟩

theorem eval_quotation {name : String} {args : List Value} (h : IsQuotation name args) :
    ∃ v, eval (.list (.atom name :: args)) = .ok v := by
  obtain ⟨rfl, hlength⟩ := h
  obtain ⟨v, rfl⟩ := List.length_eq_one_iff.mp hlength
  exact ⟨v, by rw [eval]⟩

theorem evalAll_cons (v : Value) (vs : List Value) :
    evalAll (v :: vs) = eval v >>= fun w => evalAll vs >>= fun ws => .ok (w :: ws) := by
  rw [evalAll]
  rfl

theorem evalAll_eq_mapM (vs : List Value) : evalAll vs = vs.mapM eval := by
  induction vs with
  | nil =>
      rw [evalAll]
      rfl
  | cons v vs ih =>
      rw [evalAll_cons, ih, List.mapM_cons]
      rfl

theorem evalAll_eq_ok_iff {vs ws : List Value} :
    evalAll vs = .ok ws ↔ List.Forall₂ (fun v w => eval v = .ok w) vs ws := by
  rw [evalAll_eq_mapM, mapM_eq_ok_iff]

theorem evalAll_eq_error_iff {vs : List Value} {e : EvalError} :
    evalAll vs = .error e ↔ ∃ before v after, vs = before ++ v :: after ∧
      (∀ u ∈ before, ∃ w, eval u = .ok w) ∧ eval v = .error e := by
  rw [evalAll_eq_mapM, mapM_eq_error_iff]

/-- A call with one of its arguments left open. -/
structure OpenCall where
  name : String
  before : List Value
  after : List Value
  not_quote : ¬ (name = "quote" ∧ before = [] ∧ after = [])

namespace OpenCall

def fill (call : OpenCall) (v : Value) : Value :=
  .list (.atom call.name :: (call.before ++ v :: call.after))

/-- Whether evaluation gets as far as the open argument. -/
def Reached (call : OpenCall) : Prop :=
  ∀ v ∈ call.before, ∃ w, eval v = .ok w

theorem not_isQuotation (call : OpenCall) (v : Value) :
    ¬ IsQuotation call.name (call.before ++ v :: call.after) := by
  rintro ⟨hname, hlength⟩
  refine call.not_quote ⟨hname, ?_, ?_⟩
  · apply List.eq_nil_of_length_eq_zero
    simp only [List.length_append, List.length_cons] at hlength
    omega
  · apply List.eq_nil_of_length_eq_zero
    simp only [List.length_append, List.length_cons] at hlength
    omega

theorem eval_fill (call : OpenCall) (v : Value) :
    eval (call.fill v) = evalAll (call.before ++ v :: call.after) >>= apply call.name :=
  eval_call (call.not_isQuotation v)

/-- A call fails like the first of its arguments that fails, whatever its name and whatever follows
that argument. -/
theorem eval_fill_of_error {call : OpenCall} {v : Value} {e : EvalError} (hcall : call.Reached)
    (h : eval v = .error e) : eval (call.fill v) = .error e := by
  have hargs : evalAll (call.before ++ v :: call.after) = .error e :=
    evalAll_eq_error_iff.mpr ⟨call.before, v, call.after, rfl, hcall, h⟩
  rw [eval_fill, hargs]
  rfl

end OpenCall

/-- A value with one place left open: the calls around that place, from the outside. -/
abbrev Context := List OpenCall

namespace Context

def fill (context : Context) (v : Value) : Value :=
  context.foldr OpenCall.fill v

def Reached (context : Context) : Prop :=
  ∀ call ∈ context, call.Reached

@[simp] theorem fill_nil (v : Value) : fill [] v = v := rfl

@[simp] theorem fill_cons (call : OpenCall) (context : Context) (v : Value) :
    fill (call :: context) v = call.fill (fill context v) := rfl

@[simp] theorem reached_nil : Reached [] := by
  simp [Reached]

@[simp] theorem reached_cons {call : OpenCall} {context : Context} :
    Reached (call :: context) ↔ call.Reached ∧ Reached context := by
  simp [Reached]

theorem eval_fill_of_error {context : Context} {v : Value} {e : EvalError}
    (hcontext : context.Reached) (h : eval v = .error e) : eval (context.fill v) = .error e := by
  induction context with
  | nil => exact h
  | cons call context ih =>
      obtain ⟨hcall, hcontext⟩ := reached_cons.mp hcontext
      exact OpenCall.eval_fill_of_error hcall (ih hcontext)

end Context

end MiniLisp
