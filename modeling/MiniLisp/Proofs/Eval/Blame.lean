import MiniLisp.Proofs.Eval.Context
import MiniLisp.Proofs.Primitive.Call

/-!
Which part of an expression is to blame for its error. Every error arises in exactly one place that
evaluation reaches, and from there it is passed on unchanged: nothing in the calls around that place
can replace it.
-/

namespace MiniLisp

/-! ### The errors of a call -/

def EvalError.OfCall : EvalError → Prop
  | .argumentCount _ _ => True
  | .typeMismatch _ _ => True
  | .unknownFunction _ _ => True
  | .divisionByZero _ => True
  | _ => False

theorem EvalError.OfArguments.ofCall {args : List Value} {e : EvalError}
    (h : e.OfArguments args) : e.OfCall := by
  cases h <;> trivial

theorem ofCall_of_apply {name : String} {args : List Value} {e : EvalError}
    (h : apply name args = .error e) : e.OfCall :=
  (apply_eq_error h).ofCall

/-! ### The part that is to blame -/

/-- `u.Raises e` says that evaluating `u` fails with `e` through no fault of its parts. -/
inductive Value.Raises : Value → EvalError → Prop where
  | form {u : Value} :
      u.isSelfEvaluating = false → (∀ name args, u ≠ .list (.atom name :: args)) →
        Raises u (.badSpecialForm "Unrecognized special form" u)
  /-- A call whose arguments all have results, but not such that it accepts them. -/
  | call {name : String} {args results : List Value} {e : EvalError} :
      ¬ IsQuotation name args → List.Forall₂ (fun arg w => eval arg = .ok w) args results →
        apply name results = .error e → Raises (.list (.atom name :: args)) e

/-- `Blames v context u e` says that `v` has the part `u` at the open place of `context`, that
evaluation gets there, and that `e` arises in `u`. -/
structure Blames (v : Value) (context : Context) (u : Value) (e : EvalError) : Prop where
  eq_fill : v = context.fill u
  reached : context.Reached
  raises : u.Raises e

namespace Value.Raises

variable {u : Value} {e : EvalError}

theorem eval_eq (h : u.Raises e) : eval u = .error e := by
  cases h with
  | form hliteral hlist =>
      rw [eval]
      · rintro n rfl
        cases hliteral
      · rintro contents rfl
        cases hliteral
      · rintro b rfl
        cases hliteral
      · rintro v rfl
        exact hlist "quote" [v] rfl
      · exact hlist
  | call hcall hargs happly =>
      rw [eval_call hcall, evalAll_eq_ok_iff.mpr hargs]
      exact happly

theorem not_fill {call : OpenCall} {v : Value} {e' : EvalError} (hcall : call.Reached)
    (hv : eval v = .error e') : ¬ (call.fill v).Raises e := by
  intro h
  generalize hfill : call.fill v = u at h
  cases h with
  | form _ hlist => exact hlist _ _ hfill.symm
  | call _ hresults _ =>
      obtain ⟨-, rfl⟩ : _ ∧ call.before ++ v :: call.after = _ := by
        simpa [OpenCall.fill] using hfill
      have hargs := evalAll_eq_error_iff.mpr ⟨call.before, v, call.after, rfl, hcall, hv⟩
      rw [evalAll_eq_ok_iff.mpr hresults] at hargs
      cases hargs

end Value.Raises

theorem append_cons_inj_of_forall {α : Type} {p : α → Prop} {before before' after after' : List α}
    {x x' : α} (hbefore : ∀ y ∈ before, p y) (hx : ¬ p x) (hbefore' : ∀ y ∈ before', p y)
    (hx' : ¬ p x') (h : before ++ x :: after = before' ++ x' :: after') :
    before = before' ∧ x = x' ∧ after = after' := by
  induction before generalizing before' with
  | nil =>
      cases before' with
      | nil =>
          obtain ⟨rfl, rfl⟩ := List.cons.inj h
          exact ⟨rfl, rfl, rfl⟩
      | cons y before' =>
          obtain ⟨rfl, -⟩ := List.cons.inj h
          exact absurd (hbefore' x List.mem_cons_self) hx
  | cons y before ih =>
      cases before' with
      | nil =>
          obtain ⟨rfl, -⟩ := List.cons.inj h
          exact absurd (hbefore y List.mem_cons_self) hx'
      | cons y' before' =>
          obtain ⟨rfl, hrest⟩ := List.cons.inj h
          obtain ⟨rfl, rfl, rfl⟩ := ih (List.forall_mem_cons.mp hbefore).2
            (List.forall_mem_cons.mp hbefore').2 hrest
          exact ⟨rfl, rfl, rfl⟩

/-- There is only one argument at which evaluation of a call first fails. -/
theorem OpenCall.fill_inj {call call' : OpenCall} {v v' : Value} {e e' : EvalError}
    (hcall : call.Reached) (hv : eval v = .error e) (hcall' : call'.Reached)
    (hv' : eval v' = .error e') (h : call.fill v = call'.fill v') : call = call' ∧ v = v' := by
  obtain ⟨name, before, after, hquote⟩ := call
  obtain ⟨name', before', after', hquote'⟩ := call'
  obtain ⟨rfl, hargs⟩ : name = name' ∧ before ++ v :: after = before' ++ v' :: after' := by
    simpa [fill] using h
  have hfails : ∀ {u e}, eval u = .error e → ¬ ∃ w, eval u = .ok w := by
    rintro u e hu ⟨w, hw⟩
    rw [hu] at hw
    cases hw
  obtain ⟨rfl, rfl, rfl⟩ :=
    append_cons_inj_of_forall hcall (hfails hv) hcall' (hfails hv') hargs
  exact ⟨rfl, rfl⟩

namespace Blames

variable {v u u' : Value} {context context' : Context} {e e' : EvalError}

theorem eval_eq (h : Blames v context u e) : eval v = .error e := by
  rw [h.eq_fill]
  exact Context.eval_fill_of_error h.reached h.raises.eval_eq

theorem unique (h : Blames v context u e) (h' : Blames v context' u' e') :
    context = context' ∧ u = u' := by
  obtain ⟨rfl, hreached, hraises⟩ := h
  obtain ⟨hfill, hreached', hraises'⟩ := h'
  -- Both paths lead into the same argument as long as neither of them has ended.
  induction context generalizing context' with
  | nil =>
      cases context' with
      | nil => exact ⟨rfl, hfill⟩
      | cons call' context' =>
          obtain ⟨hcall', hcontext'⟩ := Context.reached_cons.mp hreached'
          have hinner := Context.eval_fill_of_error hcontext' hraises'.eval_eq
          rw [Context.fill_nil, Context.fill_cons] at hfill
          exact absurd (hfill ▸ hraises) (Value.Raises.not_fill hcall' hinner)
  | cons call context ih =>
      obtain ⟨hcall, hcontext⟩ := Context.reached_cons.mp hreached
      have hinner := Context.eval_fill_of_error hcontext hraises.eval_eq
      cases context' with
      | nil =>
          rw [Context.fill_nil, Context.fill_cons] at hfill
          exact absurd (hfill ▸ hraises') (Value.Raises.not_fill hcall hinner)
      | cons call' context' =>
          obtain ⟨hcall', hcontext'⟩ := Context.reached_cons.mp hreached'
          have hinner' := Context.eval_fill_of_error hcontext' hraises'.eval_eq
          obtain ⟨rfl, hrest⟩ := OpenCall.fill_inj hcall hinner hcall' hinner' hfill
          obtain ⟨rfl, rfl⟩ := ih hcontext hrest hcontext'
          exact ⟨rfl, rfl⟩

end Blames

theorem exists_blames_of_form {v : Value} {e : EvalError} (hliteral : v.isSelfEvaluating = false)
    (hlist : ∀ name args, v ≠ .list (.atom name :: args)) (h : eval v = .error e) :
    ∃ context u, Blames v context u e := by
  have hraises := Value.Raises.form hliteral hlist
  have heval := hraises.eval_eq
  rw [h] at heval
  obtain rfl := Except.error.inj heval
  exact ⟨[], v, rfl, Context.reached_nil, hraises⟩

/-- A call fails because of one of its arguments or by itself. -/
theorem exists_blames_of_call {name : String} {args : List Value} {e : EvalError}
    (hargs : ∀ arg ∈ args, eval arg = .error e → ∃ context u, Blames arg context u e)
    (h : eval (.list (.atom name :: args)) = .error e) :
    ∃ context u, Blames (.list (.atom name :: args)) context u e := by
  by_cases hcall : IsQuotation name args
  · obtain ⟨v, hv⟩ := eval_quotation hcall
    rw [hv] at h
    cases h
  · rw [eval_call hcall] at h
    rcases bind_eq_error_iff.mp h with herror | ⟨results, hresults, happly⟩
    · obtain ⟨before, arg, after, rfl, hbefore, harg⟩ := evalAll_eq_error_iff.mp herror
      obtain ⟨context, u, rfl, hreached, hraises⟩ := hargs arg (by simp) harg
      have hquote : ¬ (name = "quote" ∧ before = [] ∧ after = []) := by
        rintro ⟨rfl, rfl, rfl⟩
        exact hcall ⟨rfl, rfl⟩
      refine ⟨⟨name, before, after, hquote⟩ :: context, u, rfl, ?_, hraises⟩
      exact Context.reached_cons.mpr ⟨hbefore, hreached⟩
    · have hraises := Value.Raises.call hcall (evalAll_eq_ok_iff.mp hresults) happly
      exact ⟨[], _, rfl, Context.reached_nil, hraises⟩

theorem exists_blames {v : Value} {e : EvalError} (h : eval v = .error e) :
    ∃ context u, Blames v context u e := by
  induction v using Value.induction with
  | atom name => exact exists_blames_of_form rfl nofun h
  | list items ih =>
      match items with
      | .atom name :: args =>
          exact exists_blames_of_call (fun arg harg => ih arg (List.mem_cons_of_mem _ harg)) h
      | [] => exact exists_blames_of_form rfl nofun h
      | .list _ :: _ => exact exists_blames_of_form rfl nofun h
      | .dotted _ _ :: _ => exact exists_blames_of_form rfl nofun h
      | .number _ :: _ => exact exists_blames_of_form rfl nofun h
      | .string _ :: _ => exact exists_blames_of_form rfl nofun h
      | .bool _ :: _ => exact exists_blames_of_form rfl nofun h
  | dotted head tail _ _ => exact exists_blames_of_form rfl nofun h
  | number n =>
      rw [eval] at h
      cases h
  | string contents =>
      rw [eval] at h
      cases h
  | bool b =>
      rw [eval] at h
      cases h

theorem ofCall_or_badSpecialForm_of_eval {v : Value} {e : EvalError} (h : eval v = .error e) :
    e.OfCall ∨ ∃ u, e = .badSpecialForm "Unrecognized special form" u := by
  obtain ⟨context, u, -, -, hraises⟩ := exists_blames h
  cases hraises with
  | form => exact .inr ⟨u, rfl⟩
  | call _ _ happly => exact .inl (ofCall_of_apply happly)

/-- An error of evaluation arises in a single part of the expression: in a form that cannot be
evaluated, or in a call that does not accept the results of its arguments. The part is reached
through arguments of calls that have only results to their left, it is the only such part, and the
calls around it have no influence on the error. Nothing but such forms and the primitives raises
errors. -/
theorem eval_eq_error_iff_blames (v : Value) :
    (∀ e, eval v = .error e ↔ ∃ context u, Blames v context u e) ∧
    (∀ context context' u u' e e', Blames v context u e → Blames v context' u' e' →
      context = context' ∧ u = u') ∧
    (∀ (context : Context) e, context.Reached → eval v = .error e →
      eval (context.fill v) = .error e) ∧
    (∀ text name, eval v ≠ .error (.unboundVariable text name)) ∧
    (∀ text, eval v ≠ .error (.other text)) ∧
    (∀ cause, eval v ≠ .error (.parseFailure cause)) := by
  refine ⟨?_, ?_, ?_, ?_, ?_, ?_⟩
  · intro e
    constructor
    · exact exists_blames
    · rintro ⟨context, u, h⟩
      exact h.eval_eq
  · intro context context' u u' e e' h h'
    exact h.unique h'
  · intro context e hreached he
    exact Context.eval_fill_of_error hreached he
  · intro text name he
    simpa [EvalError.OfCall] using ofCall_or_badSpecialForm_of_eval he
  · intro text he
    simpa [EvalError.OfCall] using ofCall_or_badSpecialForm_of_eval he
  · intro cause he
    simpa [EvalError.OfCall] using ofCall_or_badSpecialForm_of_eval he

-- Neither the unknown name nor the bare atom matters once the argument between them has failed.
example : eval (.list [.atom "nope", .list [.atom "+", .number 1], .atom "bare"]) =
    .error (.argumentCount 2 [.number 1]) := by rfl

end MiniLisp
