import MiniLisp.Proofs.Eval.Blame
import MiniLisp.Proofs.Reader.Source

/-!
Where the values in an outcome come from. What evaluation gives, as a result or with an error, is a
part of the expression or a leaf that a primitive has made, because no primitive puts values
together. So nothing that comes out is deeper or larger than what went in, and the nesting limit of
the reader holds for everything that comes of a source text.
-/

namespace MiniLisp

namespace Value

/-- `u.ComesFrom v` says that `u` is a part of `v` or has no parts of its own. -/
def ComesFrom (u v : Value) : Prop :=
  u ∈ v.nodes ∨ u.isLeaf = true

variable {u v w : Value}

theorem depth_eq_zero_of_isLeaf (h : u.isLeaf = true) : u.depth = 0 := by
  cases u with
  | list items => cases h
  | dotted head tail => cases h
  | _ => rfl

theorem nodes_eq_of_isLeaf (h : u.isLeaf = true) : u.nodes = [u] := by
  cases u with
  | list items => cases h
  | dotted head tail => cases h
  | _ => rfl

namespace ComesFrom

theorem depth_le (h : u.ComesFrom v) : u.depth ≤ v.depth := by
  rcases h with h | h
  · exact depth_le_of_mem_nodes h
  · rw [depth_eq_zero_of_isLeaf h]
    exact Nat.zero_le _

theorem size_le (h : u.ComesFrom v) : u.size ≤ v.size := by
  rw [size_eq_length_nodes, size_eq_length_nodes]
  rcases h with h | h
  · exact (nodes_sublist_of_mem h).length_le
  · rw [nodes_eq_of_isLeaf h]
    exact List.length_pos_of_mem (self_mem_nodes v)

theorem of_mem_nodes (hu : u ∈ w.nodes) (h : w.ComesFrom v) : u.ComesFrom v := by
  rcases h with h | h
  · exact .inl ((nodes_sublist_of_mem h).subset hu)
  · rw [nodes_eq_of_isLeaf h, List.mem_singleton] at hu
    exact .inr (hu ▸ h)

theorem trans_mem_nodes (h : u.ComesFrom v) (hv : v ∈ w.nodes) : u.ComesFrom w :=
  h.imp_left fun hu => (nodes_sublist_of_mem hv).subset hu

end ComesFrom

theorem mem_nodes_of_mem_args {name : String} {args : List Value} (h : v ∈ args) :
    v ∈ (list (.atom name :: args)).nodes := by
  rw [nodes_list]
  exact List.mem_cons_of_mem _
    (List.mem_flatMap.mpr ⟨v, List.mem_cons_of_mem _ h, self_mem_nodes v⟩)

end Value

theorem Context.mem_nodes_fill (context : Context) (v : Value) : v ∈ (context.fill v).nodes := by
  induction context with
  | nil => exact v.self_mem_nodes
  | cons call context ih =>
      have harg : fill context v ∈ (call.fill (fill context v)).nodes :=
        Value.mem_nodes_of_mem_args (by simp)
      exact (Value.nodes_sublist_of_mem harg).subset ih

/-! ### Results -/

/-- Evaluation has two kinds of results: literals, and what stands behind a quote. -/
theorem isSelfEvaluating_or_eq_quoted {v w : Value} (h : eval v = .ok w) :
    w.isSelfEvaluating = true ∨ v = w.quoted := by
  unfold eval at h
  split at h
  case h_1 n => exact .inl (Except.ok.inj h ▸ rfl)
  case h_2 contents => exact .inl (Except.ok.inj h ▸ rfl)
  case h_3 b => exact .inl (Except.ok.inj h ▸ rfl)
  case h_4 quoted => exact .inr (Except.ok.inj h ▸ rfl)
  case h_5 name args hquote =>
      obtain ⟨results, -, happly⟩ := bind_eq_ok_iff.mp h
      exact .inl (isSelfEvaluating_of_apply happly)
  case h_6 => cases h

theorem Value.isLeaf_of_isSelfEvaluating {v : Value} (h : v.isSelfEvaluating = true) :
    v.isLeaf = true := by
  cases v with
  | list items => cases h
  | dotted head tail => cases h
  | _ => rfl

/-- A result is a part of its expression, or has no parts of its own. -/
theorem comesFrom_of_eval {v w : Value} (h : eval v = .ok w) : w.ComesFrom v := by
  rcases isSelfEvaluating_or_eq_quoted h with hw | rfl
  · exact .inr (Value.isLeaf_of_isSelfEvaluating hw)
  · exact .inl (Value.mem_nodes_of_mem_args List.mem_cons_self)

/-! ### Errors -/

def EvalError.values : EvalError → List Value
  | argumentCount _ found => found
  | typeMismatch _ found => [found]
  | parseFailure _ => []
  | badSpecialForm _ form => [form]
  | unknownFunction _ _ => []
  | unboundVariable _ _ => []
  | divisionByZero _ => []
  | other _ => []

theorem EvalError.OfArguments.exists_mem_nodes {args : List Value} {e : EvalError}
    (h : e.OfArguments args) : ∀ u ∈ e.values, ∃ v ∈ args, u ∈ v.nodes := by
  intro u hu
  cases h with
  | argumentCount => exact ⟨u, hu, u.self_mem_nodes⟩
  | typeMismatch hv hpart =>
      obtain rfl := List.mem_singleton.mp hu
      exact ⟨_, hv, hpart⟩
  | unknownFunction => cases hu
  | divisionByZero => cases hu

theorem exists_eval_of_mem_results {args results : List Value} {w : Value}
    (h : List.Forall₂ (fun arg w => eval arg = .ok w) args results) (hw : w ∈ results) :
    ∃ arg ∈ args, eval arg = .ok w := by
  induction h with
  | nil => cases hw
  | cons heval _ ih =>
      rcases List.mem_cons.mp hw with rfl | hw
      · exact ⟨_, List.mem_cons_self, heval⟩
      · obtain ⟨arg, harg, heval⟩ := ih hw
        exact ⟨arg, List.mem_cons_of_mem _ harg, heval⟩

theorem Value.Raises.comesFrom {u : Value} {e : EvalError} (h : u.Raises e) :
    ∀ w ∈ e.values, w.ComesFrom u := by
  intro w hw
  cases h with
  | form =>
      obtain rfl := List.mem_singleton.mp hw
      exact .inl w.self_mem_nodes
  | call _ hresults happly =>
      obtain ⟨result, hresult, hw⟩ := (apply_eq_error happly).exists_mem_nodes w hw
      obtain ⟨arg, harg, heval⟩ := exists_eval_of_mem_results hresults hresult
      have hfrom : w.ComesFrom arg := (comesFrom_of_eval heval).of_mem_nodes hw
      exact hfrom.trans_mem_nodes (mem_nodes_of_mem_args harg)

/-- What an error carries comes from the expression, however deep inside it the error arises. -/
theorem comesFrom_of_eval_error {v : Value} {e : EvalError} (h : eval v = .error e) :
    ∀ u ∈ e.values, u.ComesFrom v := by
  obtain ⟨context, form, rfl, -, hraises⟩ := exists_blames h
  intro u hu
  exact (hraises.comesFrom u hu).trans_mem_nodes (context.mem_nodes_fill form)

/-! ### Sources -/

/-- A result is neither deeper nor larger than its expression, and no value that an error carries is
deeper than the expression. So everything that comes of a source text, as its result or with an
error, stays within the nesting limit under which the text is read. -/
theorem eval_never_grows :
    (∀ v w, eval v = .ok w → w.depth ≤ v.depth ∧ w.size ≤ v.size) ∧
    (∀ v e, eval v = .error e → ∀ u ∈ e.values, u.depth ≤ v.depth) ∧
    ∀ (limit : Nat) (source : String),
      (∀ w, evaluate limit source = .ok w → w.depth ≤ limit) ∧
      ∀ e, evaluate limit source = .error e → ∀ u ∈ e.values, u.depth ≤ limit := by
  refine ⟨?_, ?_, ?_⟩
  · intro v w hw
    have hfrom := comesFrom_of_eval hw
    exact ⟨hfrom.depth_le, hfrom.size_le⟩
  · intro v e he u hu
    exact (comesFrom_of_eval_error he u hu).depth_le
  · intro limit source
    unfold evaluate
    cases hparse : parse limit source with
    | error cause =>
        -- An error of the reader carries no value.
        refine ⟨nofun, ?_⟩
        intro e he u hu
        cases he
        cases hu
    | ok v =>
        have hdepth := depth_le_of_parse hparse
        refine ⟨fun w hw => ?_, fun e he u hu => ?_⟩
        · have hle := (comesFrom_of_eval hw).depth_le
          omega
        · have hle := (comesFrom_of_eval_error he u hu).depth_le
          omega

-- The mismatch names what is left of the lists around it, a part of the quoted argument.
example : eval (.list [.atom "+", .number 1, (Value.list [.list [.atom "a"]]).quoted]) =
    .error (.typeMismatch "number" (.atom "a")) := by rfl

end MiniLisp
