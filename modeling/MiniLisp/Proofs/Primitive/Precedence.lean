import MiniLisp.Proofs.Decimal
import MiniLisp.Proofs.Eval.Meaning
import MiniLisp.Proofs.Primitive.Call

/-!
The outcome of a call and which of several possible errors it reports. The name comes first, then
the number of arguments, then the types of all arguments from the left, and only then is anything
computed. A division by zero can be told from the arguments alone: no intermediate result is ever
divided by, so whether a chain of divisions fails depends on none of them.
-/

namespace MiniLisp

/-! ### Operands -/

/-- What is left of a value without the one-element lists around it. -/
def Value.unwrapped : Value → Value
  | list [v] => v.unwrapped
  | v => v

theorem Value.toInt_eq_error {v : Value} {e : EvalError} (h : v.toInt = .error e) :
    e = .typeMismatch "number" v.unwrapped := by
  fun_induction Value.toInt v with
  | case1 n => cases h
  | case2 contents n hn => cases h
  | case3 contents hn =>
      cases h
      rfl
  | case4 v ih => exact ih h
  | case5 v hnumber hstring hlist =>
      cases h
      rw [Value.unwrapped]
      exact hlist

namespace Ty

def coerce : (τ : Ty) → Value → Except EvalError τ.Carrier
  | int => Value.toInt
  | bool => Value.toBool
  | text => Value.toText

/-- Whether a value can be taken for an element of a type. A number or a text that begins with an
integer can be taken for an integer, also as the only element of a list, and any literal for a
text. -/
def Takes : Ty → Value → Prop
  | int, v =>
      (∃ n, v.unwrapped = .number n) ∨
        ∃ contents, v.unwrapped = .string contents ∧
          ∃ parts : Decimal.Leading, parts.chars = contents.toList
  | bool, v => ∃ b, v = .bool b
  | text, v => ∃ (σ : Ty) (x : σ.Carrier), v = σ.literal x

def wanted : Ty → String
  | int => "number"
  | bool => "boolean"
  | text => "string"

def blamed : Ty → Value → Value
  | int, v => v.unwrapped
  | _, v => v

theorem coerce_eq_error {τ : Ty} {v : Value} {e : EvalError} (h : τ.coerce v = .error e) :
    e = .typeMismatch τ.wanted (τ.blamed v) := by
  cases τ with
  | int => exact Value.toInt_eq_error h
  | bool =>
      cases v <;> cases h
      all_goals rfl
  | text =>
      cases v <;> cases h
      all_goals rfl

theorem int_takes_iff {v : Value} : int.Takes v ↔ ∃ n, v.toInt = .ok n := by
  fun_induction Value.toInt v with
  | case1 n => simp [Takes, Value.unwrapped]
  | case2 contents n hn =>
      obtain ⟨parts, hparts, -⟩ := Decimal.exists_leading_of_leadingInt? hn
      refine iff_of_true (.inr ⟨contents, ?_, parts, hparts⟩) ⟨n, rfl⟩
      simp [Value.unwrapped]
  | case3 contents hn =>
      have hparts := Decimal.leadingInt?_eq_none_iff.mp hn
      simp [Takes, Value.unwrapped, hparts]
  | case4 v ih =>
      rw [← ih]
      simp [Takes, Value.unwrapped]
  | case5 v hnumber hstring hlist =>
      have hself : v.unwrapped = v := by rw [Value.unwrapped]; exact hlist
      refine iff_of_false ?_ (by simp)
      rintro (⟨n, hn⟩ | ⟨contents, hcontents, -⟩)
      · exact hnumber n (hself ▸ hn)
      · exact hstring contents (hself ▸ hcontents)

theorem bool_takes_iff {v : Value} : bool.Takes v ↔ ∃ b, v.toBool = .ok b := by
  cases v <;> simp [Takes, Value.toBool]

theorem text_takes_iff {v : Value} : text.Takes v ↔ ∃ s, v.toText = .ok s := by
  constructor
  · rintro ⟨σ, x, rfl⟩
    exact ⟨_, σ.toText_literal x⟩
  · rintro ⟨s, hs⟩
    cases v with
    | number n => exact ⟨int, n, rfl⟩
    | bool b => exact ⟨bool, b, rfl⟩
    | string contents => exact ⟨text, contents, rfl⟩
    | atom name => cases hs
    | list vs => cases hs
    | dotted vs v => cases hs

/-- The values that can be taken for an element of a type are those that are taken for one. -/
theorem takes_iff {τ : Ty} {v : Value} : τ.Takes v ↔ ∃ x, τ.coerce v = .ok x := by
  cases τ with
  | int => exact int_takes_iff
  | bool => exact bool_takes_iff
  | text => exact text_takes_iff

theorem coerce_of_not_takes {τ : Ty} {v : Value} (h : ¬ τ.Takes v) :
    τ.coerce v = .error (.typeMismatch τ.wanted (τ.blamed v)) := by
  cases hv : τ.coerce v with
  | error e => rw [coerce_eq_error hv]
  | ok x => exact absurd (takes_iff.mpr ⟨x, hv⟩) h

end Ty

/-! ### Arithmetic on several integers -/

namespace Arithmetic

def divides : Arithmetic → Bool
  | add => false
  | sub => false
  | mul => false
  | div => true
  | mod => true
  | quotient => true
  | remainder => true

/-- The integer that an operation gives for two integers, whatever that is when it divides by
zero. -/
def exact : Arithmetic → Int → Int → Int
  | add, a, b => a + b
  | sub, a, b => a - b
  | mul, a, b => a * b
  | div, a, b => ⌊(a / b : ℚ)⌋
  | mod, a, b => a - b * ⌊(a / b : ℚ)⌋
  | quotient, a, b => Division.towardZero (a / b : ℚ)
  | remainder, a, b => a - b * Division.towardZero (a / b : ℚ)

variable {op : Arithmetic}

theorem meaning_of_ne_zero {b : Int} (h : op.divides = true → b ≠ 0) (a : Int) :
    op.meaning a b = some (op.exact a b) := by
  cases op with
  | add => rfl
  | sub => rfl
  | mul => rfl
  | div => simp only [meaning, exact, if_neg (h rfl)]
  | mod => simp only [meaning, exact, if_neg (h rfl)]
  | quotient => simp only [meaning, exact, if_neg (h rfl)]
  | remainder => simp only [meaning, exact, if_neg (h rfl)]

theorem meaning_zero (h : op.divides = true) (a : Int) : op.meaning a 0 = none := by
  cases op with
  | add => cases h
  | sub => cases h
  | mul => cases h
  | div => simp [meaning]
  | mod => simp [meaning]
  | quotient => simp [meaning]
  | remainder => simp [meaning]

theorem foldlM_meaning {ns : List Int} (h : op.divides = true → 0 ∉ ns) (n : Int) :
    ns.foldlM op.meaning n = some (ns.foldl op.exact n) := by
  induction ns generalizing n with
  | nil => rfl
  | cons m ns ih =>
      have hm : op.divides = true → m ≠ 0 := by
        rintro hop rfl
        exact h hop List.mem_cons_self
      have hns : op.divides = true → 0 ∉ ns := fun hop hmem => h hop (List.mem_cons_of_mem m hmem)
      rw [List.foldlM_cons, meaning_of_ne_zero hm]
      exact ih hns (op.exact n m)

/-- A chain breaks off at the first zero to divide by, whatever it has come to by then. -/
theorem foldlM_meaning_eq_none {ns : List Int} (hop : op.divides = true) (h : 0 ∈ ns) (n : Int) :
    ns.foldlM op.meaning n = none := by
  induction ns generalizing n with
  | nil => cases h
  | cons m ns ih =>
      rw [List.foldlM_cons]
      by_cases hm : m = 0
      · rw [hm, meaning_zero hop]
        rfl
      · have hns : 0 ∈ ns := (List.mem_cons.mp h).resolve_left fun hzero => hm hzero.symm
        rw [meaning_of_ne_zero fun _ => hm]
        exact ih hns (op.exact n m)

end Arithmetic

/-! ### Calls -/

namespace Primitive

def operandTy : Primitive → Ty
  | arithmetic _ => .int
  | numbers _ => .int
  | connective _ => .bool
  | texts _ => .text

def Fits : Primitive → List Value → Prop
  | arithmetic _, args => 2 ≤ args.length
  | _, args => args.length = 2

theorem accepts_iff {p : Primitive} {args : List Value} :
    p.accepts args.length = true ↔ p.Fits args := by
  cases p <;> simp [accepts, Fits]

end Primitive

/-- `CallEnds name args outcome` says that a call of `name` with these arguments has the outcome. -/
inductive CallEnds (name : String) (args : List Value) : Except EvalError Value → Prop where
  | unknown :
      name ∉ Primitive.names →
        CallEnds name args (.error (.unknownFunction "Unrecognized primitive function args" name))
  | count {p : Primitive} :
      (name, p) ∈ typedPrimitives → ¬ p.Fits args →
        CallEnds name args (.error (.argumentCount 2 args))
  /-- An argument is not of the type that is wanted, while those to its left are. -/
  | mismatch {p : Primitive} {before after : List Value} {v : Value} :
      (name, p) ∈ typedPrimitives → p.Fits args → args = before ++ v :: after →
      (∀ u ∈ before, p.operandTy.Takes u) → ¬ p.operandTy.Takes v →
        CallEnds name args (.error (.typeMismatch p.operandTy.wanted (p.operandTy.blamed v)))
  | divisionByZero {op : Arithmetic} {n : Int} {ns : List Int} :
      (name, .arithmetic op) ∈ typedPrimitives → ns ≠ [] →
      List.Forall₂ (fun v m => v.toInt = .ok m) args (n :: ns) → op.divides = true → 0 ∈ ns →
        CallEnds name args (.error (.divisionByZero name))
  | arithmetic {op : Arithmetic} {n : Int} {ns : List Int} :
      (name, .arithmetic op) ∈ typedPrimitives → ns ≠ [] →
      List.Forall₂ (fun v m => v.toInt = .ok m) args (n :: ns) → (op.divides = true → 0 ∉ ns) →
        CallEnds name args (.ok (.number (ns.foldl op.exact n)))
  | numbers {r : Relation} {v w : Value} {a b : Int} :
      (name, .numbers r) ∈ typedPrimitives → args = [v, w] → v.toInt = .ok a → w.toInt = .ok b →
        CallEnds name args (.ok (.bool (decide (r.Between a b))))
  | connective {c : Connective} {v w : Value} {a b : Bool} :
      (name, .connective c) ∈ typedPrimitives → args = [v, w] → v.toBool = .ok a →
      w.toBool = .ok b → CallEnds name args (.ok (.bool (c.meaning a b)))
  | texts {r : Relation} {v w : Value} {a b : String} :
      (name, .texts r) ∈ typedPrimitives → args = [v, w] → v.toText = .ok a → w.toText = .ok b →
        CallEnds name args (.ok (.bool (decide (r.Between a b))))

variable {name : String} {args : List Value} {p : Primitive}

theorem apply_of_fits (h : (name, p) ∈ typedPrimitives) (hfits : p.Fits args) :
    apply name args = p.call args := by
  rw [apply, find?_of_typed h]
  exact if_pos (Primitive.accepts_iff.mpr hfits)

theorem apply_of_not_fits (h : (name, p) ∈ typedPrimitives) (hfits : ¬ p.Fits args) :
    apply name args = .error (.argumentCount 2 args) := by
  rw [apply, find?_of_typed h]
  exact if_neg fun haccepts => hfits (Primitive.accepts_iff.mp haccepts)

/-- Two operands fail as any number of arguments do, by the first that cannot be taken for one. -/
theorem operands_eq_error_iff {α : Type} {coerce : Value → Except EvalError α} {e : EvalError}
    (hlength : args.length = 2) :
    operands coerce args = .error e ↔ args.mapM coerce = .error e := by
  obtain ⟨v, w, rfl⟩ := List.length_eq_two.mp hlength
  simp only [operands, List.mapM_cons, List.mapM_nil]
  cases coerce v with
  | error e' => simp [bind, Except.bind]
  | ok a => cases coerce w <;> simp [bind, Except.bind, pure, Except.pure]

theorem Primitive.call_of_mapM_eq_error {e : EvalError} (hfits : p.Fits args)
    (h : args.mapM p.operandTy.coerce = .error e) : p.call args = .error e := by
  cases p with
  | arithmetic op =>
      change args.mapM Value.toInt = .error e at h
      rw [call, Arithmetic.fold, h]
      rfl
  | numbers r =>
      have hoperands : operands Value.toInt args = .error e := (operands_eq_error_iff hfits).mpr h
      rw [call, Relation.onNumbers, hoperands]
      rfl
  | connective c =>
      have hoperands : operands Value.toBool args = .error e := (operands_eq_error_iff hfits).mpr h
      rw [call, Connective.onBools, hoperands]
      rfl
  | texts r =>
      have hoperands : operands Value.toText args = .error e := (operands_eq_error_iff hfits).mpr h
      rw [call, Relation.onTexts, hoperands]
      rfl

theorem apply_arithmetic_of_forall₂ {op : Arithmetic} {n : Int} {ns : List Int}
    (h : (name, .arithmetic op) ∈ typedPrimitives) (hns : ns ≠ [])
    (hargs : List.Forall₂ (fun v m => v.toInt = .ok m) args (n :: ns)) :
    apply name args = (op.outcome (ns.foldlM op.meaning n)).map .number := by
  have hfits : (Primitive.arithmetic op).Fits args := by
    have hlength := List.length_pos_iff.mpr hns
    have hsame := hargs.length_eq
    rw [List.length_cons] at hsame
    change 2 ≤ args.length
    omega
  rw [apply_of_fits h hfits]
  exact Arithmetic.fold_of_mapM (mapM_eq_ok_iff.mpr hargs)

theorem name_of_typed {op : Arithmetic} (h : (name, .arithmetic op) ∈ typedPrimitives) :
    op.name = name := by
  refine name_of_arithmetic ?_
  simpa [typedPrimitives] using h

/-- The outcome that the rules give is that of the call. -/
theorem CallEnds.apply_eq {outcome : Except EvalError Value} (h : CallEnds name args outcome) :
    apply name args = outcome := by
  cases h with
  | unknown hname =>
      have hnone : Primitive.find? name = none := by
        rw [Primitive.find?, List.lookup_eq_none_iff]
        intro entry hentry
        rw [bne_iff_ne]
        rintro rfl
        exact hname (List.mem_map_of_mem hentry)
      rw [apply, hnone]
  | count hp hfits => exact apply_of_not_fits hp hfits
  | @mismatch p before after v hp hfits hargs hbefore hv =>
      rw [apply_of_fits hp hfits]
      refine p.call_of_mapM_eq_error hfits (mapM_eq_error_iff.mpr ?_)
      refine ⟨before, v, after, hargs, ?_, Ty.coerce_of_not_takes hv⟩
      exact fun u hu => Ty.takes_iff.mp (hbefore u hu)
  | divisionByZero hp hns hargs hop hzero =>
      rw [apply_arithmetic_of_forall₂ hp hns hargs, Arithmetic.foldlM_meaning_eq_none hop hzero,
        ← name_of_typed hp]
      rfl
  | arithmetic hp hns hargs hop =>
      rw [apply_arithmetic_of_forall₂ hp hns hargs, Arithmetic.foldlM_meaning hop]
      rfl
  | @numbers r v w _ _ hp hargs hv hw =>
      have hfits : (Primitive.numbers r).Fits [v, w] := rfl
      rw [hargs, apply_of_fits hp hfits, ← Relation.holds_compare]
      simp only [Primitive.call, Relation.onNumbers, operands, hv, hw]
      rfl
  | @connective c v w _ _ hp hargs hv hw =>
      have hfits : (Primitive.connective c).Fits [v, w] := rfl
      rw [hargs, apply_of_fits hp hfits]
      simp only [Primitive.call, Connective.onBools, operands, hv, hw]
      cases c <;> rfl
  | @texts r v w _ _ hp hargs hv hw =>
      have hfits : (Primitive.texts r).Fits [v, w] := rfl
      rw [hargs, apply_of_fits hp hfits, ← Relation.holds_compare]
      simp only [Primitive.call, Relation.onTexts, operands, hv, hw]
      rfl

theorem typedPrimitives_eq_table : typedPrimitives = Primitive.table := rfl

theorem exists_typed_of_mem_names (h : name ∈ Primitive.names) :
    ∃ p, (name, p) ∈ typedPrimitives := by
  obtain ⟨⟨name', p⟩, hentry, rfl⟩ := List.mem_map.mp h
  exact ⟨p, typedPrimitives_eq_table ▸ hentry⟩

theorem exists_pair_of_forall₂ {α : Type} {coerce : Value → Except EvalError α} {xs : List α}
    (hlength : args.length = 2) (h : List.Forall₂ (fun v x => coerce v = .ok x) args xs) :
    ∃ v w a b, args = [v, w] ∧ coerce v = .ok a ∧ coerce w = .ok b := by
  obtain ⟨v, w, rfl⟩ := List.length_eq_two.mp hlength
  obtain ⟨a, _, hv, hrest, -⟩ := List.forall₂_cons_left_iff.mp h
  obtain ⟨b, _, hw, -, -⟩ := List.forall₂_cons_left_iff.mp hrest
  exact ⟨v, w, a, b, rfl, hv, hw⟩

/-- Whether a chain of divisions fails is told by its operands after the first. -/
theorem exists_callEnds_of_integers {op : Arithmetic} {ns : List Int}
    (hp : (name, .arithmetic op) ∈ typedPrimitives) (hlength : 2 ≤ args.length)
    (hargs : List.Forall₂ (fun v n => v.toInt = .ok n) args ns) :
    ∃ outcome, CallEnds name args outcome := by
  rw [hargs.length_eq] at hlength
  cases ns with
  | nil => cases hlength
  | cons n ns =>
      have hns : ns ≠ [] := List.length_pos_iff.mp (Nat.le_of_succ_le_succ hlength)
      by_cases hzero : op.divides = true ∧ 0 ∈ ns
      · exact ⟨_, .divisionByZero hp hns hargs hzero.1 hzero.2⟩
      · exact ⟨_, .arithmetic hp hns hargs fun hop hmem => hzero ⟨hop, hmem⟩⟩

theorem exists_callEnds_of_forall₂ (hp : (name, p) ∈ typedPrimitives) (hfits : p.Fits args)
    {xs : List p.operandTy.Carrier}
    (hargs : List.Forall₂ (fun v x => p.operandTy.coerce v = .ok x) args xs) :
    ∃ outcome, CallEnds name args outcome := by
  cases p with
  | arithmetic op => exact exists_callEnds_of_integers hp hfits hargs
  | numbers r =>
      obtain ⟨v, w, a, b, hpair, hv, hw⟩ := exists_pair_of_forall₂ hfits hargs
      exact ⟨_, .numbers hp hpair hv hw⟩
  | connective c =>
      obtain ⟨v, w, a, b, hpair, hv, hw⟩ := exists_pair_of_forall₂ hfits hargs
      exact ⟨_, .connective hp hpair hv hw⟩
  | texts r =>
      obtain ⟨v, w, a, b, hpair, hv, hw⟩ := exists_pair_of_forall₂ hfits hargs
      exact ⟨_, .texts hp hpair hv hw⟩

theorem exists_callEnds (name : String) (args : List Value) :
    ∃ outcome, CallEnds name args outcome := by
  by_cases hname : name ∈ Primitive.names
  · obtain ⟨p, hp⟩ := exists_typed_of_mem_names hname
    by_cases hfits : p.Fits args
    · cases hargs : args.mapM p.operandTy.coerce with
      | error e =>
          obtain ⟨before, v, after, hsplit, hbefore, hv⟩ := mapM_eq_error_iff.mp hargs
          refine ⟨_, .mismatch hp hfits hsplit (fun u hu => Ty.takes_iff.mpr (hbefore u hu)) ?_⟩
          rw [Ty.takes_iff]
          rintro ⟨x, hx⟩
          rw [hv] at hx
          cases hx
      | ok xs => exact exists_callEnds_of_forall₂ hp hfits (mapM_eq_ok_iff.mp hargs)
    · exact ⟨_, .count hp hfits⟩
  · exact ⟨_, .unknown hname⟩

/-- The outcome of a call is the one that the rules give, and they give one for every name and all
arguments. A primitive that is called, with as many arguments as it takes, never complains about
their number itself. -/
theorem apply_eq_iff_callEnds (name : String) (args : List Value) :
    (∀ outcome, apply name args = outcome ↔ CallEnds name args outcome) ∧
    ∀ p, Primitive.find? name = some p → p.accepts args.length = true →
      ∀ expected found, p.call args ≠ .error (.argumentCount expected found) := by
  have hends : CallEnds name args (apply name args) := by
    obtain ⟨outcome, h⟩ := exists_callEnds name args
    rw [h.apply_eq]
    exact h
  refine ⟨?_, ?_⟩
  · intro outcome
    constructor
    · rintro rfl
      exact hends
    · exact CallEnds.apply_eq
  · intro p hp haccepts expected found hcall
    have happly : apply name args = p.call args := by
      rw [apply, hp]
      exact if_pos haccepts
    rw [happly, hcall] at hends
    cases hends with
    | @count p' hp' hfits =>
        obtain rfl : p' = p := Option.some.inj ((find?_of_typed hp').symm.trans hp)
        exact hfits (Primitive.accepts_iff.mp haccepts)

-- The third argument is looked at before the first is divided by the second.
example : apply "/" [.number 1, .number 0, .list [.list [.bool true]]] =
    .error (.typeMismatch "number" (.bool true)) := by rfl

end MiniLisp
