import MiniLisp.Proofs.Eval.Context
import MiniLisp.Proofs.Eval.Typing

/-!
Evaluating a typed expression gives what it means. The only failure is a division by zero, and it
is reported for the first application that divides by zero.
-/

namespace MiniLisp

namespace Arithmetic

theorem combine?_eq_meaning (op : Arithmetic) (a b : Int) : op.combine? a b = op.meaning a b := by
  cases op with
  | add => rfl
  | sub => rfl
  | mul => rfl
  | div =>
      simp only [combine?, meaning, Division.floorQuotient?, Division.unlessZero,
        Division.fdiv_eq_floor]
  | mod =>
      simp only [combine?, meaning, Division.floorRemainder?, Division.unlessZero, Int.fmod_def,
        Division.fdiv_eq_floor]
  | quotient =>
      simp only [combine?, meaning, Division.truncQuotient?, Division.unlessZero,
        Division.tdiv_eq_towardZero]
  | remainder =>
      simp only [combine?, meaning, Division.truncRemainder?, Division.unlessZero, Int.tmod_def,
        Division.tdiv_eq_towardZero]

def outcome (op : Arithmetic) (n? : Option Int) : Except EvalError Int :=
  match n? with
  | some n => .ok n
  | none => .error (.divisionByZero op.name)

theorem foldlM_combine (op : Arithmetic) (a : Int) (ns : List Int) :
    ns.foldlM op.combine a = op.outcome (ns.foldlM op.meaning a) := by
  induction ns generalizing a with
  | nil => rfl
  | cons n ns ih =>
      rw [List.foldlM_cons, List.foldlM_cons, combine, combine?_eq_meaning]
      cases op.meaning a n with
      | none => rfl
      | some m => exact ih m

theorem mapM_toInt_number (ns : List Int) : (ns.map Value.number).mapM Value.toInt = .ok ns := by
  induction ns with
  | nil => rfl
  | cons n ns ih =>
      rw [List.map_cons, List.mapM_cons, ih]
      rfl

theorem fold_of_mapM {op : Arithmetic} {args : List Value} {n : Int} {ns : List Int}
    (h : args.mapM Value.toInt = .ok (n :: ns)) :
    op.fold args = (op.outcome (op.meaningAll (n :: ns))).map .number := by
  rw [fold, h, meaningAll, ← foldlM_combine]
  change (ns.foldlM op.combine n >>= fun m => pure (Value.number m)) = _
  cases ns.foldlM op.combine n <;> rfl

end Arithmetic

theorem Relation.holds_compare {α : Type} [LinearOrder α] (r : Relation) (a b : α) :
    r.holds (compare a b) = decide (r.Between a b) := by
  rcases lt_trichotomy a b with h | rfl | h
  · rw [compare_lt_iff_lt.mpr h]
    cases r <;> simp [holds, Between, h, h.le, h.ne, h.not_gt, h.not_ge]
  · rw [compare_eq_iff_eq.mpr rfl]
    cases r <;> simp [holds, Between]
  · rw [compare_gt_iff_gt.mpr h]
    cases r <;> simp [holds, Between, h, h.le, h.ne', h.not_gt, h.not_ge]

theorem Ty.toText_literal (τ : Ty) (x : τ.Carrier) : (τ.literal x).toText = .ok (τ.printed x) := by
  cases τ with
  | int => exact congrArg Except.ok (Decimal.text_eq_numeral x)
  | bool => cases x <;> rfl
  | text => rfl

/-! ### Calling the primitives on literals -/

def typedPrimitives : List (String × Primitive) :=
  arithmeticNames.map (Prod.map id .arithmetic) ++ numberRelations.map (Prod.map id .numbers) ++
    connectives.map (Prod.map id .connective) ++ textRelations.map (Prod.map id .texts)

theorem find?_of_typed {name : String} {primitive : Primitive}
    (h : (name, primitive) ∈ typedPrimitives) : Primitive.find? name = some primitive := by
  have hall : ∀ entry ∈ typedPrimitives, Primitive.find? entry.1 = some entry.2 := by decide
  exact hall (name, primitive) h

theorem name_of_arithmetic {name : String} {op : Arithmetic} (h : (name, op) ∈ arithmeticNames) :
    op.name = name := by
  have hall : ∀ entry ∈ arithmeticNames, entry.2.name = entry.1 := by decide
  exact hall (name, op) h

theorem apply_arithmetic {name : String} {op : Arithmetic} (h : (name, op) ∈ arithmeticNames)
    (m n : Int) (ns : List Int) :
    apply name ((m :: n :: ns).map Value.number) =
      (op.outcome (op.meaningAll (m :: n :: ns))).map .number := by
  have haccepts : (Primitive.arithmetic op).accepts ((m :: n :: ns).map Value.number).length := by
    simp [Primitive.accepts]
  rw [apply, @find?_of_typed name (.arithmetic op) (by simp [typedPrimitives, h])]
  simp only [haccepts, if_true]
  exact Arithmetic.fold_of_mapM (Arithmetic.mapM_toInt_number (m :: n :: ns))

theorem apply_numbers {name : String} {r : Relation} (h : (name, r) ∈ numberRelations)
    (m n : Int) : apply name [.number m, .number n] = .ok (.bool (decide (r.Between m n))) := by
  rw [apply, @find?_of_typed name (.numbers r) (by simp [typedPrimitives, h]), ← r.holds_compare]
  rfl

theorem apply_connective {name : String} {c : Connective} (h : (name, c) ∈ connectives)
    (a b : Bool) : apply name [.bool a, .bool b] = .ok (.bool (c.meaning a b)) := by
  rw [apply, @find?_of_typed name (.connective c) (by simp [typedPrimitives, h])]
  cases c <;> rfl

theorem apply_texts {name : String} {r : Relation} (h : (name, r) ∈ textRelations) (σ τ : Ty)
    (x : σ.Carrier) (y : τ.Carrier) :
    apply name [σ.literal x, τ.literal y] =
      .ok (.bool (decide (r.Between (σ.printed x) (τ.printed y)))) := by
  rw [apply, @find?_of_typed name (.texts r) (by simp [typedPrimitives, h]), ← r.holds_compare]
  simp only [Primitive.accepts, List.length_cons, List.length_nil, beq_self_eq_true, if_true,
    Primitive.call, Relation.onTexts, operands, Ty.toText_literal]
  rfl

/-! ### Evaluation follows the meaning -/

/-- An outcome of evaluation is the one that a meaning and its faults call for: the meaning if there
is one, and otherwise a division by zero at the first fault. -/
def Agrees {α β : Type} (meaning : Option α) (faults : List String) (inject : α → β)
    (outcome : Except EvalError β) : Prop :=
  (∃ x, meaning = some x ∧ faults = [] ∧ outcome = .ok (inject x)) ∨
    ∃ name others, meaning = none ∧ faults = name :: others ∧
      outcome = .error (.divisionByZero name)

theorem agrees_some {α β : Type} {x : α} {inject : α → β} {outcome : Except EvalError β}
    (h : outcome = .ok (inject x)) : Agrees (some x) [] inject outcome :=
  .inl ⟨x, rfl, rfl, h⟩

/-- What is done with a result is reached only when the result has a meaning. -/
theorem Agrees.bind {α β γ δ : Type} {meaning : Option α} {faults more : List String}
    {inject : α → β} {outcome : Except EvalError β} {f : α → Option γ} {inject' : γ → δ}
    {g : β → Except EvalError δ} (h : Agrees meaning faults inject outcome)
    (hnext : ∀ x, meaning = some x → Agrees (f x) more inject' (g (inject x))) :
    Agrees (meaning.bind f) (faults ++ more) inject' (outcome >>= g) := by
  rcases h with ⟨x, hmeaning, rfl, rfl⟩ | ⟨name, others, rfl, rfl, rfl⟩
  · have hx := hnext x hmeaning
    rw [hmeaning]
    exact hx
  -- The first failure hides what would have followed it.
  · exact .inr ⟨name, others ++ more, rfl, rfl, rfl⟩

/-- A list with two arguments or more is no quotation, so its arguments are evaluated. -/
theorem eval_application (name : String) (a b : Value) (more : List Value) :
    eval (.list (.atom name :: a :: b :: more)) = evalAll (a :: b :: more) >>= apply name := by
  refine eval_call ?_
  rintro ⟨-, hlength⟩
  simp at hlength

theorem agrees_arithmetic {name : String} {op : Arithmetic} (h : (name, op) ∈ arithmeticNames)
    (m n : Int) (ns : List Int) :
    Agrees (op.meaningAll (m :: n :: ns))
      (if op.meaningAll (m :: n :: ns) = none then [name] else []) Value.number
      (apply name ((m :: n :: ns).map Value.number)) := by
  rw [apply_arithmetic h]
  cases op.meaningAll (m :: n :: ns) with
  | some k => exact agrees_some rfl
  | none => exact .inr ⟨name, [], rfl, rfl, by rw [← name_of_arithmetic h]; rfl⟩

theorem agrees_binary {σ τ : Ty} {name : String} {a b : Value} {x? : Option σ.Carrier}
    {y? : Option τ.Carrier} {faults more : List String} {f : σ.Carrier → τ.Carrier → Bool}
    (hleft : Agrees x? faults σ.literal (eval a)) (hright : Agrees y? more τ.literal (eval b))
    (happly : ∀ x y, apply name [σ.literal x, τ.literal y] = .ok (.bool (f x y))) :
    Agrees (x?.bind fun x => y?.bind fun y => some (f x y)) (faults ++ more) Value.bool
      (eval (.list [.atom name, a, b])) := by
  have heval : eval (.list [.atom name, a, b]) =
      eval a >>= fun v => eval b >>= fun w => apply name [v, w] := by
    rw [eval_application, evalAll_cons, evalAll_cons, evalAll]
    cases eval a with
    | error e => rfl
    | ok v => cases eval b <;> rfl
  rw [heval]
  refine hleft.bind fun x _ => ?_
  rw [← List.append_nil more]
  exact hright.bind fun y _ => agrees_some (happly x y)

theorem Typings.length_of_values {vs : List Value} {ns : List Int} :
    (d : Typings vs) → d.values = some ns → ns.length = vs.length
  | .nil, h => by
      obtain rfl : [] = ns := Option.some.inj h
      rfl
  | .cons first others, h => by
      obtain ⟨n, -, hn⟩ := Option.bind_eq_some_iff.mp h
      obtain ⟨ms, hms, hns⟩ := Option.bind_eq_some_iff.mp hn
      obtain rfl : (n :: ms : List Int) = ns := Option.some.inj hns
      exact congrArg Nat.succ (others.length_of_values hms)

mutual

theorem Typing.agrees {v : Value} {τ : Ty} :
    (d : Typing v τ) → Agrees d.value d.faults τ.literal (eval v)
  | .number n => agrees_some (by rw [eval]; rfl)
  | .bool b => agrees_some (by rw [eval]; rfl)
  | .string contents => agrees_some (by rw [eval]; rfl)
  | .arithmetic hname args => by
      rw [eval_application]
      refine args.agrees.bind fun ns hns => ?_
      -- All arguments have a meaning, so only the operation itself can still fail.
      rw [hns]
      match ns, args.length_of_values hns with
      | m :: n :: ns, _ => exact agrees_arithmetic hname m n ns
  | .numbers hname left right => agrees_binary left.agrees right.agrees (apply_numbers hname)
  | .connective hname left right =>
      agrees_binary left.agrees right.agrees (apply_connective hname)
  | .texts hname left right =>
      agrees_binary left.agrees right.agrees (apply_texts hname _ _)

theorem Typings.agrees {vs : List Value} :
    (d : Typings vs) → Agrees d.values d.faults (List.map Value.number) (evalAll vs)
  | .nil => agrees_some (by rw [evalAll]; rfl)
  | .cons first others => by
      rw [evalAll_cons]
      refine first.agrees.bind fun n _ => ?_
      rw [← List.append_nil others.faults]
      exact others.agrees.bind fun ns _ => agrees_some rfl

end

/-- A typed expression evaluates to the literal of its type for what it means, and it fails only if
something in it is divided by zero, which is reported for the first application that does so. -/
theorem eval_of_typing {v : Value} {τ : Ty} (d : Typing v τ) :
    (∀ w, eval v = .ok w ↔ ∃ x, d.value = some x ∧ w = τ.literal x) ∧
      ∀ e, eval v = .error e ↔ ∃ name, d.faults.head? = some name ∧ e = .divisionByZero name := by
  rcases d.agrees with ⟨x, hvalue, hfaults, heval⟩ | ⟨name, others, hvalue, hfaults, heval⟩
  · rw [hvalue, hfaults, heval]
    refine ⟨fun w => ⟨fun h => ⟨x, rfl, (Except.ok.inj h).symm⟩, ?_⟩, fun e => ⟨nofun, nofun⟩⟩
    rintro ⟨y, hy, rfl⟩
    rw [Option.some.inj hy]
  · rw [hvalue, hfaults, heval]
    refine ⟨fun w => ⟨nofun, nofun⟩, fun e => ⟨fun h => ⟨name, rfl, (Except.error.inj h).symm⟩, ?_⟩⟩
    rintro ⟨first, hfirst, rfl⟩
    rw [Option.some.inj hfirst]

/-- Differences go from the left, and a left side that is false does not keep the right side from
failing. -/
theorem eval_of_typing_chain_and_fault :
    eval (.list [.atom "-", .number 1, .number 2, .number 3]) = .ok (.number (-4)) ∧
    eval (.list [.atom "&&", .bool false,
      .list [.atom "=", .list [.atom "mod", .number 1, .number 0],
        .list [.atom "/", .number 1, .number 0]]]) = .error (.divisionByZero "mod") := by
  have hsub : ("-", Arithmetic.sub) ∈ arithmeticNames := by decide
  have hmod : ("mod", Arithmetic.mod) ∈ arithmeticNames := by decide
  have hdiv : ("/", Arithmetic.div) ∈ arithmeticNames := by decide
  have hequal : ("=", Relation.equal) ∈ numberRelations := by decide
  have hand : ("&&", Connective.and) ∈ connectives := by decide
  constructor
  · let d := Typing.arithmetic hsub (.cons (.number 1) (.cons (.number 2) (.cons (.number 3) .nil)))
    exact ((eval_of_typing d).1 _).mpr ⟨(-4 : ℤ), rfl, rfl⟩
  · let zero : Typings [.number 1, .number 0] := .cons (.number 1) (.cons (.number 0) .nil)
    let d := Typing.connective hand (.bool false)
      (.numbers hequal (.arithmetic hmod zero) (.arithmetic hdiv zero))
    exact ((eval_of_typing d).2 _).mpr ⟨"mod", rfl, rfl⟩

end MiniLisp
